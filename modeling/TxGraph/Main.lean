import TxGraph.CommandLine.Run

/-!
# The command line

Runs a request over the files of the machine.
-/

namespace TxGraph

/-- The failure that a code of the machine stands for. -/
def FileError.ofCode (code : UInt32) (message : String) : FileError :=
  if code = 2 then .notFound
  else if code = 17 then .occupied
  else if code = 20 then .notFolder
  else if code = 21 then .isFolder
  else if code = 36 then .nameTooLong
  else .other message

def FileError.ofFailure (e : IO.Error) : FileError :=
  match e with
  | .noFileOrDirectory _ code _ => ofCode code (toString e)
  | .inappropriateType _ code _ => ofCode code (toString e)
  | .invalidArgument _ code _ => ofCode code (toString e)
  | .alreadyExists _ code _ => ofCode code (toString e)
  | .otherError code _ => ofCode code (toString e)
  | _ => .other (toString e)

/-- The result of an action, or why it failed. -/
def attempt {α : Type} (action : IO α) : IO (Except FileError α) := do
  try
    return .ok (← action)
  catch e =>
    return .error (.ofFailure e)

/-- The files of the machine. -/
def machineFiles : FileStore IO where
  read path := attempt do return (← IO.FS.readBinFile path).toList
  write path content := attempt (IO.FS.writeBinFile path ⟨content.toArray⟩)
  makeFolders path := attempt (IO.FS.createDirAll path)

end TxGraph

def main (args : List String) : IO UInt32 := do
  let output ← TxGraph.CommandLine.run TxGraph.machineFiles args
  IO.print output.stdout
  IO.eprint output.stderr
  return output.exitCode
