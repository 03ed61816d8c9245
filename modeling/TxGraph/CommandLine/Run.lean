import TxGraph.CommandLine.Request
import TxGraph.Decoding.OfTransaction
import TxGraph.Document.Json
import TxGraph.Graph.Issue
import TxGraph.Program.File
import TxGraph.Program.OfGraph
import TxGraph.Script.OfProgram
import TxGraph.Script.Printer
import TxGraph.Transaction.Json
import TxGraph.Transaction.OfProgram

/-!
# Answers of the command line

A request runs over any place that keeps files and comes to texts and an exit code.
-/

namespace TxGraph.CommandLine

structure Output where
  exitCode : UInt32
  stdout : String
  stderr : String
  deriving DecidableEq, Repr

namespace Output

def ok (stdout : String) : Output := ⟨0, stdout, ""⟩

def failed (message : String) : Output := ⟨1, "", "\nError: " ++ message ++ "\n"⟩

/-- The output of arguments that make no request. -/
def misused : Output := ⟨2, "", "unknown request; try --help\n"⟩

/-- The output of a request that an address stops. -/
def aborted (cause : Address.Uncut) : Output := ⟨101, "", cause.message ++ "\n"⟩

end Output

def helpText : String :=
  "Compile, lower and decode programmable-transaction graphs\n\n" ++
  "Usage: txgraph <COMMAND>\n\n" ++
  "Commands:\n" ++
  "  compile   Print the IR of a saved document\n" ++
  "  emit      Print TypeScript source for a saved document\n" ++
  "  build     Print the transaction JSON for a saved document\n" ++
  "  decode    Turn a transaction JSON file back into a document\n" ++
  "  validate  List structural issues in a saved document\n" ++
  "  help      Print this message or the help of the given subcommand(s)\n\n" ++
  "Options:\n" ++
  "  -h, --help     Print help\n" ++
  "  -V, --version  Print version\n"

def versionText : String := "txgraph 0.1.0\n"

/-- The settings of a document with those of the command line over them. -/
def Settings.over (s : Settings) (options : ExecOptions) : ExecOptions :=
  ⟨s.sender <|> options.sender, s.gasBudget <|> options.gasBudget⟩

/-! ## Steps -/

def compiled (d : Document) : Except Output Program :=
  match d.graph.compile [] with
  | .ok p => .ok p
  | .error (.uncut cause) => .error (.aborted cause)
  | .error e => .error (.failed ("Compilation failed: " ++ e.message))

def lowered {α : Type} : Except LowerError α → Except Output α
  | .ok a => .ok a
  | .error (.uncut cause) => .error (.aborted cause)
  | .error e => .error (.failed ("Lowering failed: " ++ e.message))

def decoded (source : SignatureSnapshot) (t : Transaction) : Except Output Decoded :=
  (Decoded.ofTransaction source.package t).mapError .aborted

def parsedTransaction (text : String) : Except Output Transaction :=
  match Transaction.ofText? text with
  | some t => .ok t
  | none => .error (.failed "Failed to parse transaction JSON")

def parsedSignatures (text : String) : Except Output SignatureSnapshot :=
  match (Json.parseAs? SignatureSnapshot.shape text).bind SignatureSnapshot.ofJson? with
  | some s => .ok s
  | none => .error (.failed "Failed to parse signatures JSON")

def emitted (d : Document) (settings : Settings) : Except Output Output := do
  let p ← compiled d
  let (script, _) ← lowered (Script.ofProgram p (settings.over d.options))
  return .ok script.text

def built (d : Document) (settings : Settings) : Except Output Output := do
  let p ← compiled d
  let t ← lowered (Transaction.ofProgram p (settings.over d.options))
  return .ok (t.toText ++ "\n")

/-- The document of a transaction, with the diagnostics beside it. -/
def restored (t : Transaction) (signatures : SignatureSnapshot) (chain : String) :
    Except Output Output := do
  let r ← decoded signatures t
  let d := (Document.new chain r.graph).withSignatures signatures
  let d := { d with sender := r.options.sender }
  return ⟨0, d.toText ++ "\n", String.join (r.diagnostics.map fun g => g.display ++ "\n")⟩

def validated (d : Document) : Output :=
  match d.graph.issues with
  | [] => .ok "No issues found.\n"
  | issues => ⟨2, String.join (issues.map fun i => i.display ++ "\n"), ""⟩

/-! ## Requests -/

variable {m : Type → Type} [Monad m]

def loaded (store : FileStore m) (path : String) : ExceptT Output m Document := do
  match ← ExceptT.lift (Document.load store path) with
  | .ok d => return d
  | .error e => throw (.failed ("Failed to load document '" ++ path ++ "': " ++ e.message))

def readFile (store : FileStore m) (path : String) : ExceptT Output m String := do
  match ← ExceptT.lift (store.readText path) with
  | .ok text => return text
  | .error e => throw (.failed ("Failed to read file '" ++ path ++ "': " ++ e.message))

/-- Writes an artifact after the listing has been printed. -/
def savedArtifact (store : FileStore m) (p : Program) (path : String) : m Output := do
  match ← p.save store path with
  | .ok _ => return ⟨0, p.listing, "Wrote artifact to " ++ path ++ "\n"⟩
  | .error e =>
    return { Output.failed ("Failed to write artifact: " ++ e.message) with stdout := p.listing }

def perform (store : FileStore m) : Request → ExceptT Output m Output
  | .compile document artifact => do
    let p ← compiled (← loaded store document)
    match artifact with
    | none => return .ok p.listing
    | some path => ExceptT.lift (savedArtifact store p path)
  | .emit document settings => do emitted (← loaded store document) settings
  | .build document settings => do built (← loaded store document) settings
  | .decode transaction signatures chain => do
    let t ← parsedTransaction (← readFile store transaction)
    let snapshot ← match signatures with
      | none => pure SignatureSnapshot.empty
      | some path => do parsedSignatures (← readFile store path)
    restored t snapshot chain
  | .validate document => do return validated (← loaded store document)
  | .help => return .ok helpText
  | .version => return .ok versionText

/-- The output for the arguments of a command line. -/
def run (store : FileStore m) (args : List String) : m Output :=
  match Request.ofArgs? args with
  | none => return .misused
  | some request => do
    match ← (perform store request).run with
    | .ok output => return output
    | .error output => return output

end TxGraph.CommandLine
