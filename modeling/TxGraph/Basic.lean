/-!
# Words and directories

The greatest numbers of the unsigned machine words, and maps from texts to values. A directory is
kept sorted by key, so that equal directories are equal lists. The order of keys is the order of
their code points.
-/

namespace TxGraph

/-! ## Machine words -/

namespace Word

def max16 : Nat := 65535

def max32 : Nat := 4294967295

def max64 : Nat := 18446744073709551615

def max128 : Nat := 340282366920938463463374607431768211455

end Word

/-! ## Directories -/

abbrev Directory (α : Type) := List (String × α)

namespace Directory

variable {α : Type}

/-- Puts a value under a key, in place of the one that was there. -/
def insert (key : String) (value : α) : Directory α → Directory α
  | [] => [(key, value)]
  | (k, v) :: rest =>
    if key < k then (key, value) :: (k, v) :: rest
    else if key = k then (key, value) :: rest
    else (k, v) :: insert key value rest

def get? (directory : Directory α) (key : String) : Option α :=
  directory.lookup key

/-- The directory of entries that are inserted one after the other. -/
def ofEntries (entries : List (String × α)) : Directory α :=
  entries.foldl (fun directory (key, value) => directory.insert key value) []

end Directory

end TxGraph
