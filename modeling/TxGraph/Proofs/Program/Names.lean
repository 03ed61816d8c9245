import Mathlib.Data.List.Nodup
import Mathlib.Data.List.Perm.Subperm
import TxGraph.Program.Names
import TxGraph.Proofs.Text

/-!
# Fresh names

Every name that a pool hands out is an identifier that was free: the hint itself, or the hint with the
smallest number that leads to a free name. `Hands` follows a pool through any number of names, and its
lemmas say what holds of them together.
-/

namespace TxGraph.NamePool

variable {c : Char}

/-! ## Identifiers -/

def isNameStart (c : Char) : Bool :=
  c.isAlpha || c == '_' || c == '$'

def isNamePart (c : Char) : Bool :=
  c.isAlphanum || c == '_' || c == '$'

/-- Whether the text is a letter, an underscore or a dollar sign, and then any number of these and
of digits. -/
def isIdentifier (s : String) : Bool :=
  match s.toList with
  | [] => false
  | c :: rest => isNameStart c && rest.all isNamePart

theorem isNamePart_of_isNameChar (h : isNameChar c = true) : isNamePart c = true := by
  simp only [isNameChar, isNamePart, Bool.or_eq_true] at h ⊢
  tauto

theorem isNameStart_of_isNamePart (h : isNamePart c = true) (hd : c.isDigit = false) :
    isNameStart c = true := by
  simpa [isNamePart, isNameStart, Char.isAlphanum, hd] using h

theorem isIdentifier_ofList {rest : List Char} (hc : isNamePart c = true) (hd : c.isDigit = false)
    (hrest : ∀ d ∈ rest, isNamePart d = true) :
    isIdentifier (String.ofList (c :: rest)) = true := by
  simp only [isIdentifier, String.toList_ofList, Bool.and_eq_true, List.all_eq_true]
  exact ⟨isNameStart_of_isNamePart hc hd, hrest⟩

theorem isNameChar_of_mem_words {run cs word : List Char}
    (hrun : ∀ c ∈ run, isNameChar c = true) (hword : word ∈ words run cs) :
    ∀ c ∈ word, isNameChar c = true := by
  induction cs generalizing run with
  | nil =>
    simp only [words] at hword
    split at hword
    · cases hword
    · simp_all
  | cons c rest ih =>
    simp only [words] at hword
    split at hword
    case isTrue hc => exact ih (by simpa [hc] using hrun) hword
    case isFalse =>
      split at hword
      · exact ih (by simp) hword
      · rcases List.mem_cons.mp hword with rfl | hword
        · simpa using hrun
        · exact ih (by simp) hword

/-- An identifier is made of the words of its hint and of underscores. -/
theorem isNamePart_of_mem_intercalate {ws : List (List Char)}
    (h : ∀ w ∈ ws, ∀ c ∈ w, isNameChar c = true) :
    ∀ c ∈ ['_'].intercalate ws, isNamePart c = true := by
  induction ws with
  | nil => simp
  | cons w rest ih =>
    have hw : ∀ c ∈ w, isNamePart c = true := fun c hc =>
      isNamePart_of_isNameChar (h w List.mem_cons_self c hc)
    have hrest := ih fun v hv => h v (List.mem_cons_of_mem w hv)
    cases rest with
    | nil => simpa using hw
    | cons v rest =>
      intro c hc
      rw [List.intercalate_cons_cons, List.mem_append, List.mem_append] at hc
      rcases hc with (hc | hc) | hc
      · exact hw c hc
      · rw [List.mem_singleton.mp hc]
        rfl
      · exact hrest c hc

theorem isIdentifier_identifier (hint : String) : isIdentifier (identifier hint) = true := by
  have hwords : ∀ w ∈ words [] hint.toList, ∀ c ∈ w, isNameChar c = true :=
    fun w hw => isNameChar_of_mem_words (by simp) hw
  have hparts := isNamePart_of_mem_intercalate hwords
  unfold identifier
  split
  case h_1 => rfl
  case h_2 c rest heq =>
    rw [heq] at hparts
    split
    case isTrue => exact isIdentifier_ofList rfl rfl hparts
    case isFalse hd =>
      exact isIdentifier_ofList (hparts c List.mem_cons_self) (by simpa using hd)
        fun d hd => hparts d (List.mem_cons_of_mem c hd)

theorem isIdentifier_numbered {base : String} (h : isIdentifier base = true) (n : Nat) :
    isIdentifier (numbered base n) = true := by
  unfold isIdentifier at h ⊢
  split at h
  case h_1 => cases h
  case h_2 c rest heq =>
    simp only [Bool.and_eq_true, List.all_eq_true] at h
    have hdigits : ∀ d ∈ n.repr.toList, isNamePart d = true := fun d hd =>
      isNamePart_of_isNameChar (by simp [isNameChar, Char.isAlphanum, Text.isDigit_of_mem_repr hd])
    simp only [numbered, Nat.toString_eq_repr, String.toList_append, heq, List.cons_append,
      Bool.and_eq_true, List.all_eq_true, List.mem_append]
    refine ⟨h.1, fun d hd => ?_⟩
    rcases hd with (hd | hd) | hd
    · exact h.2 d hd
    · rw [List.mem_singleton.mp hd]
      rfl
    · exact hdigits d hd

/-! ## Free names -/

theorem numbered_inj {base : String} {m n : Nat} : numbered base m = numbered base n ↔ m = n := by
  simp [numbered, String.append_right_inj]

theorem numbered_ne_base (base : String) (n : Nat) : numbered base n ≠ base := by
  intro h
  have := congrArg String.length h
  have hmark : "_".length = 1 := rfl
  simp only [numbered, String.length_append] at this
  omega

/-- The search stops at the first free name, or after as many names as it may try. -/
theorem firstFree_eq (pool : NamePool) (base : String) (fuel n : Nat) :
    ∃ i ≤ fuel, pool.firstFree base fuel n = numbered base (n + i) ∧
      (∀ j < i, pool.isTaken (numbered base (n + j)) = true) ∧
      (i < fuel → pool.isTaken (numbered base (n + i)) = false) := by
  induction fuel generalizing n with
  | zero => exact ⟨0, Nat.le_refl 0, rfl, nofun, nofun⟩
  | succ fuel ih =>
    simp only [firstFree]
    split
    case isFalse h => exact ⟨0, Nat.zero_le _, rfl, nofun, fun _ => by simpa using h⟩
    case isTrue h =>
      obtain ⟨i, hi, heq, htried, hfree⟩ := ih (n + 1)
      have hshift (j : Nat) : n + (j + 1) = n + 1 + j := by omega
      refine ⟨i + 1, by omega, by rw [heq, ← hshift i], fun j hj => ?_, fun hlt => ?_⟩
      · cases j with
        | zero => exact h
        | succ j => exact hshift j ▸ htried j (by omega)
      · exact hshift i ▸ hfree (by omega)

theorem length_le_size {pool : NamePool} {names : List String} (hn : names.Nodup)
    (h : ∀ name ∈ names, pool.isTaken name = true) : names.length ≤ pool.taken.size := by
  have hsub : names ⊆ pool.taken.toList := fun name hname =>
    Std.TreeSet.mem_toList.mpr (Std.TreeSet.mem_iff_contains.mpr (h name hname))
  simpa using (List.subperm_of_subset hn hsub).length_le

/-- The name for an identifier: the identifier if that is free, or else the first of its numbered
names that is. It is found among as many as there are taken names. -/
inductive Chosen (pool : NamePool) (base : String) : String → Prop
  | plain (free : pool.isTaken base = false) : Chosen pool base base
  | numbered {n : Nat} (taken : pool.isTaken base = true) (low : 2 ≤ n)
    (high : n < 2 + pool.taken.size) (free : pool.isTaken (numbered base n) = false)
    (least : ∀ m, 2 ≤ m → m < n → pool.isTaken (NamePool.numbered base m) = true) :
    Chosen pool base (NamePool.numbered base n)

theorem chosen_choose (pool : NamePool) (base : String) : Chosen pool base (pool.choose base) := by
  unfold choose
  split
  case isFalse h => exact .plain (by simpa using h)
  case isTrue hbase =>
    obtain ⟨i, hi, heq, htried, hfree⟩ := pool.firstFree_eq base pool.taken.size 2
    -- the base and the names that were tried are different taken names
    have hlt : i < pool.taken.size := by
      let tried := base :: (List.range i).map fun j => numbered base (2 + j)
      have hnodup : tried.Nodup := by
        refine List.nodup_cons.mpr ⟨?_, List.Nodup.map ?_ List.nodup_range⟩
        · simpa using fun j _ => numbered_ne_base base (2 + j)
        · intro j k h
          have := numbered_inj.mp h
          omega
      have htaken : ∀ name ∈ tried, pool.isTaken name = true := by
        simpa [tried, hbase] using htried
      simpa [tried, Nat.succ_le_iff] using length_le_size hnodup htaken
    rw [heq]
    refine .numbered hbase (by omega) (by omega) (hfree hlt) fun m hm hmi => ?_
    obtain ⟨j, rfl⟩ := Nat.exists_eq_add_of_le hm
    exact htried j (by omega)

section

variable {pool : NamePool} {base name : String} (h : Chosen pool base name)

include h

theorem Chosen.isTaken : pool.isTaken name = false := by
  cases h with
  | plain free => exact free
  | numbered _ _ _ free => exact free

theorem Chosen.isIdentifier (hbase : isIdentifier base = true) : isIdentifier name = true := by
  cases h with
  | plain => exact hbase
  | numbered => exact isIdentifier_numbered hbase _

end

/-! ## Names handed out -/

/-- The pool hands out the names one after the other: each is a free identifier and is taken from
then on. -/
inductive Hands : NamePool → List String → NamePool → Prop
  | nil (pool : NamePool) : Hands pool [] pool
  | cons {pool pool' : NamePool} {name : String} {names : List String}
    (free : pool.isTaken name = false) (isName : isIdentifier name = true)
    (rest : Hands (pool.take name) names pool') : Hands pool (name :: names) pool'

theorem hands_alloc (pool : NamePool) (hint : String) :
    Hands pool [(pool.alloc hint).1] (pool.alloc hint).2 :=
  have hchosen := pool.chosen_choose (identifier hint)
  .cons hchosen.isTaken (hchosen.isIdentifier (isIdentifier_identifier hint)) (.nil _)

theorem hands_allocPlural (pool : NamePool) (hint : String) :
    Hands pool [(pool.allocPlural hint).1] (pool.allocPlural hint).2 :=
  hands_alloc pool _

namespace Hands

variable {pool pool' pool'' : NamePool} {names more : List String}

theorem append (h : Hands pool names pool') (h' : Hands pool' more pool'') :
    Hands pool (names ++ more) pool'' := by
  induction h with
  | nil pool => exact h'
  | cons free isName _ ih => exact .cons free isName (ih h')

theorem isIdentifier (h : Hands pool names pool') :
    ∀ name ∈ names, isIdentifier name = true := by
  induction h with
  | nil pool => simp
  | cons _ isName _ ih => simpa [isName] using ih

theorem free (h : Hands pool names pool') : ∀ name ∈ names, pool.isTaken name = false := by
  induction h with
  | nil pool => simp
  | cons free _ _ ih =>
    intro name hname
    rcases List.mem_cons.mp hname with rfl | hname
    · exact free
    · have := ih name hname
      simp_all

theorem nodup (h : Hands pool names pool') : names.Nodup := by
  induction h with
  | nil pool => exact List.nodup_nil
  | cons _ _ rest ih =>
    refine List.nodup_cons.mpr ⟨fun hmem => ?_, ih⟩
    simpa using rest.free _ hmem

end Hands

/-! ## The first pool -/

theorem isTaken_foldl_take (names : List String) (pool : NamePool) (name : String) :
    (names.foldl take pool).isTaken name = (names.contains name || pool.isTaken name) := by
  induction names generalizing pool with
  | nil => simp
  | cons first rest ih =>
    rw [List.foldl_cons, ih, isTaken_take, List.contains_cons, ← Bool.or_assoc,
      Bool.or_comm (rest.contains name), BEq.comm]

theorem isTaken_seeded (names : List String) (name : String) :
    (seeded names).isTaken name = (reserved ++ names).contains name := by
  have hempty : (NamePool.mk ∅).isTaken name = false := by simp [isTaken]
  rw [seeded, isTaken_foldl_take, hempty, Bool.or_false]

/-! ## Requests -/

/-- A hint for the name of a value or of a vector. -/
inductive Request
  | single (hint : String)
  | plural (hint : String)
  deriving DecidableEq, Repr

def request (pool : NamePool) : Request → String × NamePool
  | .single hint => pool.alloc hint
  | .plural hint => pool.allocPlural hint

def serve (pool : NamePool) : List Request → List String × NamePool
  | [] => ([], pool)
  | r :: rest =>
    let (names, pool') := (pool.request r).2.serve rest
    ((pool.request r).1 :: names, pool')

theorem hands_serve (requests : List Request) (pool : NamePool) :
    Hands pool (pool.serve requests).1 (pool.serve requests).2 := by
  induction requests generalizing pool with
  | nil => exact .nil pool
  | cons r rest ih =>
    have hfirst : Hands pool [(pool.request r).1] (pool.request r).2 := by
      cases r with
      | single hint => exact pool.hands_alloc hint
      | plural hint => exact pool.hands_allocPlural hint
    exact hfirst.append (ih _)

/-- **Names are found and are fresh.** Whatever is taken, there is a name for every hint: the hint as an
identifier, or else the first of its numbered names that is free. It is an identifier, it was free, and
nothing else is taken with it. So the names for any requests to a pool are different, and they are none
of the names it was given at first and no reserved words. -/
theorem alloc_fresh :
    (∀ (pool : NamePool) (hint : String), Chosen pool (identifier hint) (pool.alloc hint).1 ∧
      isIdentifier (pool.alloc hint).1 = true ∧ pool.isTaken (pool.alloc hint).1 = false ∧
      ∀ name, (pool.alloc hint).2.isTaken name = true ↔
        name = (pool.alloc hint).1 ∨ pool.isTaken name = true) ∧
    ∀ (names : List String) (requests : List Request),
      ((seeded names).serve requests).1.Nodup ∧
      ∀ name ∈ ((seeded names).serve requests).1,
        isIdentifier name = true ∧ name ∉ names ∧ name ∉ reserved := by
  refine ⟨fun pool hint => ?_, fun names requests => ?_⟩
  · have hchosen := pool.chosen_choose (identifier hint)
    refine ⟨hchosen, hchosen.isIdentifier (isIdentifier_identifier hint), hchosen.isTaken, ?_⟩
    intro name
    rw [alloc, isTaken_take, Bool.or_eq_true, beq_iff_eq, eq_comm]
  · have hands := hands_serve requests (seeded names)
    refine ⟨hands.nodup, fun name hname => ⟨hands.isIdentifier name hname, ?_⟩⟩
    have hfree := hands.free name hname
    rw [isTaken_seeded, List.contains_eq_mem, decide_eq_false_iff_not, List.mem_append, not_or] at hfree
    exact hfree.symm

end TxGraph.NamePool
