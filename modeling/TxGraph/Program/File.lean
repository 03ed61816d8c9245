import TxGraph.Files.Basic
import TxGraph.Files.Path
import TxGraph.Program.Artifact
import TxGraph.Program.Listing

/-!
# Programs in files

A program is kept as its bytes. Its listing can be written beside for inspection.
-/

namespace TxGraph

inductive ArtifactError
  | fault (cause : Artifact.Fault)
  | unreadable (path : String) (cause : FileError)
  | unwritable (path : String) (cause : FileError)
  deriving DecidableEq, Repr

def ArtifactError.message : ArtifactError → String
  | fault cause => cause.message
  | unreadable path cause => "Could not open file '" ++ path ++ "': " ++ cause.message
  | unwritable path cause => "Could not write to file '" ++ path ++ "': " ++ cause.message

namespace Program

variable {m : Type → Type} [Monad m]

def load (store : FileStore m) (path : String) : m (Except ArtifactError Program) := do
  match ← store.read path with
  | .error cause => return .error (.unreadable path cause)
  | .ok bytes => return (ofBytes bytes).mapError .fault

def save (store : FileStore m) (path : String) (p : Program) : m (Except ArtifactError Unit) := do
  return (← store.write path p.toBytes).mapError (.unwritable path)

/-- Writes the listing into a folder. What cannot be written is left out. -/
def dump (store : FileStore m) (folder : String) (p : Program) : m Unit := do
  match ← store.makeFolders folder with
  | .error _ => return
  | .ok _ =>
    let _ ← store.writeText (Path.join folder "program.txt") p.listing
    return

end Program

end TxGraph
