import Std.Data.TreeSet.Lemmas

/-!
# Names

Names for the values of a program are identifiers of the emitted TypeScript. A pool hands out each
name once: a hint is made an identifier, and one that is taken gets the smallest free number.
-/

namespace TxGraph

/-- The names that are not to be handed out. -/
structure NamePool where
  taken : Std.TreeSet String

namespace NamePool

/-- Words that cannot name a value, and the names that every emitted module declares. -/
def reserved : List String :=
  ["abstract", "any", "as", "async", "await", "boolean", "break", "case", "catch", "class",
   "const", "constructor", "continue", "debugger", "declare", "default", "delete", "do", "else",
   "enum", "export", "extends", "false", "finally", "for", "from", "function", "get", "if",
   "implements", "import", "in", "instanceof", "interface", "let", "module", "namespace", "never",
   "new", "null", "number", "object", "of", "package", "private", "protected", "public",
   "readonly", "return", "set", "static", "string", "super", "switch", "symbol", "this", "throw",
   "true", "try", "type", "typeof", "undefined", "unknown", "var", "void", "while", "with",
   "yield", "tx", "myAddress", "Transaction"]

def isTaken (pool : NamePool) (name : String) : Bool :=
  pool.taken.contains name

def take (pool : NamePool) (name : String) : NamePool :=
  ⟨pool.taken.insert name⟩

@[simp]
theorem isTaken_take (pool : NamePool) (a b : String) :
    (pool.take a).isTaken b = (a == b || pool.isTaken b) := by
  have h : (compare a b == .eq) = (a == b) := by
    rw [Bool.eq_iff_iff, Std.LawfulEqCmp.compare_beq_iff_eq, beq_iff_eq]
  simp [take, isTaken, Std.TreeSet.contains_insert, h]

/-- The pool in which the given names are taken as well as the reserved ones. -/
def seeded (names : List String) : NamePool :=
  (reserved ++ names).foldl take ⟨∅⟩

/-! ## Identifiers -/

def isNameChar (c : Char) : Bool :=
  c.isAlphanum || c == '$'

/-- The runs of name characters; `run` is the current one, in reverse. -/
def words (run : List Char) : List Char → List (List Char)
  | [] => if run.isEmpty then [] else [run.reverse]
  | c :: rest =>
    if isNameChar c then words (c :: run) rest
    else if run.isEmpty then words [] rest
    else run.reverse :: words [] rest

/-- The hint as an identifier: runs of other characters become an underscore. -/
def identifier (hint : String) : String :=
  match ['_'].intercalate (words [] hint.toList) with
  | [] => "value"
  | c :: rest => String.ofList (if c.isDigit then '_' :: c :: rest else c :: rest)

/-- The plural of an identifier, for the names of vectors. -/
def plural (name : String) : String :=
  match name.toList.reverse with
  | 's' :: _ => name
  | 'y' :: stem =>
    match stem with
    | 'a' :: _ => name ++ "s"
    | 'e' :: _ => name ++ "s"
    | 'o' :: _ => name ++ "s"
    | 'u' :: _ => name ++ "s"
    | _ => String.ofList stem.reverse ++ "ies"
  | _ => name ++ "s"

/-- A base with a number. Numbers have no greatest value here; 31 bits of them would run out after
about `2 ^ 31` names of one base. -/
def numbered (base : String) (n : Nat) : String :=
  base ++ "_" ++ toString n

/-- The first free name among `base_n`, `base_(n+1)`, …; one of as many as there are taken names
and one more is free. -/
def firstFree (pool : NamePool) (base : String) : (fuel n : Nat) → String
  | 0, n => numbered base n
  | fuel + 1, n =>
    if pool.isTaken (numbered base n) then firstFree pool base fuel (n + 1) else numbered base n

/-- A free name for an identifier. -/
def choose (pool : NamePool) (base : String) : String :=
  if pool.isTaken base then pool.firstFree base pool.taken.size 2 else base

def alloc (pool : NamePool) (hint : String) : String × NamePool :=
  let name := pool.choose (identifier hint)
  (name, pool.take name)

/-- A name for a vector. -/
def allocPlural (pool : NamePool) (hint : String) : String × NamePool :=
  pool.alloc (plural (identifier hint))

end NamePool

end TxGraph
