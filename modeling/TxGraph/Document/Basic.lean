import TxGraph.Files.Basic
import TxGraph.Graph.Json
import TxGraph.Lowering.Target
import TxGraph.Snapshot

/-!
# Documents

What an editor saves: a graph, and what is needed to open it again without the chain. Ports are
not saved, since they follow from the nodes.
-/

namespace TxGraph

/-- Where an editor looks at a graph. -/
structure Viewport where
  x : Binary64
  y : Binary64
  zoom : Binary64
  deriving DecidableEq, Repr

structure Document where
  version : UInt32
  /-- The chain, for instance `sui:testnet`. -/
  chain : String
  sender : Option String
  graph : Graph
  view : Option Viewport
  signatures : Option SignatureSnapshot
  objects : Option ObjectSnapshot
  deriving DecidableEq, Repr

inductive DocumentError
  | malformed
  | unsupportedVersion (found : UInt32)
  | file (path : String) (cause : FileError)
  deriving DecidableEq, Repr

namespace Document

/-- The version that is written, and the newest that is read. -/
def currentVersion : UInt32 := 1

def new (chain : String) (graph : Graph) : Document :=
  ⟨currentVersion, chain, none, graph, none, none, none⟩

/-- The document with signatures; there is no empty snapshot in a document. -/
def withSignatures (d : Document) (s : SignatureSnapshot) : Document :=
  { d with signatures := if s.isEmpty then none else some s }

def withObjects (d : Document) (s : ObjectSnapshot) : Document :=
  { d with objects := if s.isEmpty then none else some s }

/-- The settings that the document gives. -/
def options (d : Document) : ExecOptions :=
  ⟨d.sender, none⟩

end Document

def DocumentError.message : DocumentError → String
  | malformed => "Failed to parse document JSON"
  | unsupportedVersion found =>
    "Document version " ++ toString found.toNat ++ " is not supported (expected at most " ++
      toString Document.currentVersion.toNat ++ ")"
  | file path cause => "Could not access document file '" ++ path ++ "': " ++ cause.message

end TxGraph
