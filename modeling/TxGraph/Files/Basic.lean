import TxGraph.Bytes.Basic

/-!
# Files

What reading and writing files comes to, over any place that keeps them.
-/

namespace TxGraph

inductive FileError
  | notFound
  | isFolder
  | notFolder
  | nameTooLong
  /-- Something stands where a folder is to be made. -/
  | occupied
  | hasNul
  /-- The bytes are not UTF-8. -/
  | notText
  | other (message : String)
  deriving DecidableEq, Repr

def FileError.message : FileError → String
  | notFound => "No such file or directory (os error 2)"
  | isFolder => "Is a directory (os error 21)"
  | notFolder => "Not a directory (os error 20)"
  | nameTooLong => "File name too long (os error 36)"
  | occupied => "File exists (os error 17)"
  | hasNul => "file name contained an unexpected NUL byte"
  | notText => "stream did not contain valid UTF-8"
  | other message => message

/-- A place that keeps files. -/
structure FileStore (m : Type → Type) where
  read : (path : String) → m (Except FileError Bytes)
  write : (path : String) → Bytes → m (Except FileError Unit)
  /-- Makes a folder and those above it. -/
  makeFolders : (path : String) → m (Except FileError Unit)

namespace FileStore

variable {m : Type → Type} [Monad m]

/-- The text that bytes encode. -/
def textOf (bytes : Bytes) : Except FileError String :=
  match Bytes.toText? bytes with
  | some text => .ok text
  | none => .error .notText

def readText (store : FileStore m) (path : String) : m (Except FileError String) := do
  return (← store.read path) >>= textOf

def writeText (store : FileStore m) (path text : String) : m (Except FileError Unit) :=
  store.write path (Bytes.ofText text)

end FileStore

end TxGraph
