import TxGraph.Files.Basic

/-!
# Paths

A path is parts between slashes. A single dot stays in a folder and two dots leave it; empty parts
do not count. A slash in front starts at the root, and one at the end asks for a folder.
-/

namespace TxGraph

structure Path where
  fromRoot : Bool
  parts : List String
  asksFolder : Bool
  deriving DecidableEq, Repr

namespace Path

/-- The most bytes in the name of one file or folder. -/
def maxName : Nat := 255

/-- The most bytes in a path. -/
def maxLength : Nat := 4095

/-- Splits at every slash. -/
def splitPath (part : List Char) : List Char → List String
  | '/' :: rest => String.ofList part.reverse :: splitPath [] rest
  | c :: rest => splitPath (c :: part) rest
  | [] => [String.ofList part.reverse]

def startsAtRoot (text : String) : Bool :=
  text.toList.head? == some '/'

def endsInSlash (text : String) : Bool :=
  text.toList.getLast? == some '/'

def parse (text : String) : Path :=
  ⟨startsAtRoot text, (splitPath [] text.toList).filter (· != ""), endsInSlash text⟩

/-- The path that a text names. -/
def ofText (text : String) : Except FileError Path :=
  if text.toList.contains '\x00' then .error .hasNul
  else if text.isEmpty then .error .notFound
  else if maxLength < text.utf8ByteSize then .error .nameTooLong
  else .ok (parse text)

/-- Whether a part names an entry of a folder. -/
def isName (part : String) : Bool :=
  part != "." && part != ".."

/-- The name that the path gives to what it leads to. -/
def name? (p : Path) : Option String :=
  p.parts.getLast?.filter isName

/-- The path of a name in a folder. -/
def join (folder name : String) : String :=
  if folder.isEmpty || endsInSlash folder then folder ++ name else folder ++ "/" ++ name

end Path

end TxGraph
