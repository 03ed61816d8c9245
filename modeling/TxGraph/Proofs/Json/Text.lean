import Mathlib.Data.List.TakeDrop
import TxGraph.Json.Printer
import TxGraph.Proofs.Address
import TxGraph.Proofs.Json.Tree

/-!
# Pretty text reads back

A value whose numbers are integers is read back from its pretty text (`parseAs?_pretty`). Texts may
hold any character, and nothing that follows a value is taken for a part of it. The reader has as
much fuel as there are characters; every step down leaves at least one of them behind.
-/

namespace TxGraph.Json

variable {n fuel level : Nat} {rest cs cs' : List Char} {j : Json}

/-! ## Texts -/

/-- How a character is written inside a text: by a short escape, by its code, or as it is. -/
theorem escapeChar_cases (c : Char) :
    (∃ e, e ≠ 'u' ∧ simpleEscape? e = some c ∧ escapeChar c = ['\\', e]) ∨
    (c.toNat < 0x20 ∧
      escapeChar c = ['\\', 'u', '0', '0', Hex.digit (c.toNat / 16), Hex.digit (c.toNat % 16)]) ∨
    (0x20 ≤ c.toNat ∧ c ≠ '"' ∧ c ≠ '\\' ∧ escapeChar c = [c]) := by
  by_cases hshort : c ∈ ['"', '\\', '\x08', '\t', '\n', '\x0c', '\r']
  · left
    simp only [List.mem_cons, List.not_mem_nil, or_false] at hshort
    rcases hshort with rfl | rfl | rfl | rfl | rfl | rfl | rfl
    · exact ⟨'"', by decide⟩
    · exact ⟨'\\', by decide⟩
    · exact ⟨'b', by decide⟩
    · exact ⟨'t', by decide⟩
    · exact ⟨'n', by decide⟩
    · exact ⟨'f', by decide⟩
    · exact ⟨'r', by decide⟩
  · right
    simp only [List.mem_cons, List.not_mem_nil, or_false, not_or] at hshort
    obtain ⟨hquote, hslash, h3, h4, h5, h6, h7⟩ := hshort
    by_cases hlow : c.toNat < 0x20
    · exact .inl ⟨hlow, by simp [escapeChar, hquote, hslash, h3, h4, h5, h6, h7, hlow, Hex.digit]⟩
    · exact .inr ⟨by omega, hquote, hslash,
        by simp [escapeChar, hquote, hslash, h3, h4, h5, h6, h7, hlow]⟩

theorem hexUnit?_digits (h : n < 256) :
    hexUnit? '0' '0' (Hex.digit (n / 16)) (Hex.digit (n % 16)) = some n := by
  have hzero : Hex.digitValue? '0' = some 0 := by decide
  simp only [hexUnit?, hzero, Hex.digitValue?_digit (show n / 16 < 16 by omega),
    Hex.digitValue?_digit (show n % 16 < 16 by omega), Option.bind_eq_bind, Option.bind_some,
    Option.pure_def, Option.some.injEq]
  omega

theorem readUnits_escapeChar (acc : List Unit16) (c : Char) (rest : List Char) :
    readUnits acc (escapeChar c ++ rest) = readUnits (.char c :: acc) rest := by
  rcases escapeChar_cases c with ⟨e, hu, hvalue, heq⟩ | ⟨hlow, heq⟩ | ⟨hhigh, hquote, hslash, heq⟩
  · rw [heq, List.cons_append, List.singleton_append, readUnits]
    · simp only [hvalue]
    · exact fun _ _ _ _ _ h => absurd h hu
  · have hvalue := hexUnit?_digits (show c.toNat < 256 by omega)
    have hplain : (isHighSurrogate c.toNat || isLowSurrogate c.toNat) = false := by
      simp [isHighSurrogate, isLowSurrogate]
      omega
    simp only [heq, List.cons_append, List.nil_append, readUnits, hvalue, hplain,
      Char.ofNat_toNat, Bool.false_eq_true, if_false]
  · rw [heq, List.singleton_append, readUnits.eq_def]
    split <;> grind

theorem readUnits_flatMap_escapeChar (cs : List Char) (acc : List Unit16) (rest : List Char) :
    readUnits acc (cs.flatMap escapeChar ++ '"' :: rest) =
      some ((cs.map Unit16.char).reverse ++ acc, rest) := by
  induction cs generalizing acc with
  | nil => simp [readUnits]
  | cons c cs ih =>
    rw [List.flatMap_cons, List.append_assoc, readUnits_escapeChar, ih]
    simp

theorem joinUnits_chars (cs acc : List Char) :
    joinUnits acc (cs.map Unit16.char) = some (cs.reverse ++ acc) := by
  induction cs generalizing acc with
  | nil => simp [joinUnits]
  | cons c cs ih => simp [joinUnits, ih]

theorem readString_flatMap_escapeChar (s : String) (rest : List Char) :
    readString (s.toList.flatMap escapeChar ++ '"' :: rest) = some (some s, rest) := by
  have hjoin : joinUnits [] (s.toList.map Unit16.char).reverse = some s.toList := by
    rw [← List.map_reverse, joinUnits_chars, List.reverse_reverse, List.append_nil]
  simp only [readString, readUnits_flatMap_escapeChar, List.append_nil, hjoin, Option.map_some,
    String.ofList_toList]

/-! ## Integers -/

/-- What follows a number is not taken for more of it. -/
def Stops (rest : List Char) : Prop :=
  ∀ c ∈ rest.head?, c.isDigit = false ∧ c ≠ '.' ∧ c ≠ 'e' ∧ c ≠ 'E'

theorem spanDigits_append {ds : List Char} (hds : ∀ c ∈ ds, c.isDigit = true) (hrest : Stops rest) :
    spanDigits (ds ++ rest) = (ds, rest) := by
  have hstop : rest.takeWhile Char.isDigit = [] ∧ rest.dropWhile Char.isDigit = rest := by
    cases rest with
    | nil => exact ⟨rfl, rfl⟩
    | cons c rest =>
      have hc := (hrest c rfl).1
      simp [hc]
  rw [spanDigits, List.span_eq_takeWhile_dropWhile, List.takeWhile_append_of_pos hds,
    List.dropWhile_append_of_pos hds, hstop.1, hstop.2, List.append_nil]

theorem head?_toDigits (h : 0 < n) : (Nat.toDigits 10 n).head? ≠ some '0' := by
  induction n using Nat.strongRecOn with
  | ind n ih =>
    by_cases hn : n < 10
    · have table : ∀ n < 10, 0 < n → Nat.digitChar n ≠ '0' := by decide
      rw [Nat.toDigits_of_lt_base hn]
      simpa using table n hn h
    · rw [Nat.toDigits_of_base_le (by decide) (by omega),
        List.head?_append_of_ne_nil _ Nat.toDigits_ne_nil]
      exact ih (n / 10) (by omega) (by omega)

theorem readNumeral_toDigits (negative : Bool) (n : Nat) (h : Stops rest) :
    readNumeral negative (Nat.toDigits 10 n ++ rest) =
      some (⟨negative, Nat.toDigits 10 n, [], none⟩, rest) := by
  have hspan := spanDigits_append
    (fun c hc => Nat.isDigit_of_mem_toDigits (b := 10) (n := n) (by decide) (by decide) hc) h
  -- a zero stands in front only of nothing
  have hzero (c : Char) (cs : List Char) : Nat.toDigits 10 n ≠ '0' :: c :: cs := by
    intro heq
    rcases Nat.eq_zero_or_pos n with rfl | hn
    · rw [Nat.toDigits_zero] at heq
      cases heq
    · exact head?_toDigits hn (by rw [heq]; rfl)
  have hne : Nat.toDigits 10 n ≠ [] := Nat.toDigits_ne_nil
  unfold readNumeral
  rw [hspan]
  generalize Nat.toDigits 10 n = ds at hne hzero
  cases rest with
  | nil => grind
  | cons c rest => 
    have hc := h c rfl
    grind

theorem Numeral.value?_int {n : Int} (h : (int n).isExact = true) :
    Numeral.value? ⟨n < 0, Nat.toDigits 10 n.natAbs, [], none⟩ = some (int n) := by
  have hdigits : Text.digitsToNat (Nat.toDigits 10 n.natAbs) = n.natAbs := by
    rw [Text.digitsToNat_eq_ofDigitChars, Nat.ofDigitChars_ten_toDigits]
  have hrange : -9223372036854775808 ≤ n ∧ n ≤ Word.max64 := by simpa [isExact] using h
  have hmax : Word.max64 = 18446744073709551615 := rfl
  have hword : ¬ Word.max64 < n.natAbs := by omega
  simp only [value?, hdigits, List.isEmpty_nil, Bool.not_true, Option.isSome_none, Bool.or_self,
    Bool.false_or, decide_eq_true_eq, if_neg hword]
  by_cases hn : n < 0
  · have hsmall : ¬ (n.natAbs = 0 ∨ 9223372036854775808 < n.natAbs) := by omega
    simp only [hn, decide_true, Bool.not_true, Bool.false_eq_true, if_false, if_neg hsmall]
    rw [show -(n.natAbs : Int) = n by omega]
  · simp only [hn, decide_false, Bool.not_false, if_true]
    rw [show (n.natAbs : Int) = n by omega]

/-! ## Blanks -/

theorem skipSpace_newline (level : Nat) (cs : List Char) :
    skipSpace (newline level ++ cs) = skipSpace cs := by
  have hblank : ∀ c ∈ newline level, isSpace c = true := by
    intro c hc
    rcases List.mem_cons.mp hc with rfl | hc
    · rfl
    · rw [List.eq_of_mem_replicate hc]
      rfl
  rw [skipSpace, List.dropWhile_append_of_pos hblank, skipSpace]

theorem skipSpace_cons {c : Char} (h : isSpace c = false) (cs : List Char) :
    skipSpace (c :: cs) = c :: cs :=
  List.dropWhile_cons_of_neg (by simp [h])

theorem readValue_congr (h : skipSpace cs = skipSpace cs') (fuel : Nat) :
    readValue fuel cs = readValue fuel cs' := by
  cases fuel with
  | zero => rw [readValue, readValue]
  | succ fuel => rw [readValue, readValue, h]

theorem readItems_congr (h : skipSpace cs = skipSpace cs') (fuel : Nat) (acc : List Raw) :
    readItems fuel acc cs = readItems fuel acc cs' := by
  cases fuel with
  | zero => rw [readItems, readItems]
  | succ fuel => rw [readItems, readItems, readValue_congr h]

theorem readMembers_congr (h : skipSpace cs = skipSpace cs') (fuel : Nat)
    (acc : List (Option String × Raw)) : readMembers fuel acc cs = readMembers fuel acc cs' := by
  cases fuel with
  | zero => rw [readMembers, readMembers]
  | succ fuel => rw [readMembers, readMembers, h]

/-! ## Leaves -/

theorem exists_toDigits (n : Nat) :
    ∃ d ds, Nat.toDigits 10 n = d :: ds ∧ ∀ c : Char, c.isDigit = false → d ≠ c := by
  obtain ⟨d, ds, hds⟩ := List.exists_cons_of_ne_nil (Nat.toDigits_ne_nil (n := n) (b := 10))
  have hd : d.isDigit = true :=
    Nat.isDigit_of_mem_toDigits (b := 10) (n := n) (by decide) (by decide) (by rw [hds]; simp)
  refine ⟨d, ds, hds, ?_⟩
  rintro c hc rfl
  rw [hd] at hc
  cases hc

theorem isSpace_digit {d : Char} (h : ∀ c : Char, c.isDigit = false → d ≠ c) :
    isSpace d = false := by
  simp [isSpace, h ' ' (by decide), h '\n' (by decide), h '\t' (by decide), h '\r' (by decide)]

theorem readValue_digits (hrest : Stops rest) :
    readValue (fuel + 1) (Nat.toDigits 10 n ++ rest) =
      some (.num ⟨false, Nat.toDigits 10 n, [], none⟩, rest) := by
  have hread := readNumeral_toDigits false n hrest
  obtain ⟨d, ds, hds, hne⟩ := exists_toDigits n
  rw [hds, List.cons_append] at hread ⊢
  rw [readValue, skipSpace_cons (isSpace_digit hne)]
  -- a digit opens none of the other forms
  split
  case h_8 => rw [hread, Option.map_some]
  all_goals
    rename_i heq
    exact absurd (List.cons.inj heq).1 (hne _ (by decide))

theorem readValue_intChars {n : Int} (h : (int n).isExact = true) (hrest : Stops rest) :
    ∃ raw, raw.Carries (int n) ∧ readValue (fuel + 1) (intChars n ++ rest) = some (raw, rest) := by
  refine ⟨.num ⟨n < 0, Nat.toDigits 10 n.natAbs, [], none⟩, ?_, ?_⟩
  · exact fun _ _ _ _ => Numeral.value?_int h
  · by_cases hn : n < 0
    · have hread := readNumeral_toDigits true n.natAbs hrest
      simp [intChars, hn, readValue, skipSpace_cons (show isSpace '-' = false by decide), hread]
    · simp [intChars, hn, readValue_digits hrest]

theorem readValue_stringChars (s : String) :
    readValue (fuel + 1) (stringChars s ++ rest) = some (.str (some s), rest) := by
  rw [stringChars, List.cons_append, List.append_assoc, List.singleton_append]
  simp [readValue, skipSpace_cons (show isSpace '"' = false by decide),
    readString_flatMap_escapeChar]

/-! ## Lines -/

/-- The pretty text of the value is read as a tree that carries it, whatever follows. -/
def Readable (j : Json) : Prop :=
  ∀ fuel level rest, (prettyChars level j).length ≤ fuel → Stops rest →
    ∃ raw, Raw.Carries raw j ∧ readValue fuel (prettyChars level j ++ rest) = some (raw, rest)

theorem stops_nil : Stops [] := by
  intro c hc
  cases hc

theorem stops_newline (level : Nat) (rest : List Char) : Stops (newline level ++ rest) := by
  intro c hc
  cases hc
  decide

theorem stops_comma (rest : List Char) : Stops (',' :: rest) := by
  intro c hc
  cases hc
  decide

theorem length_newline (level : Nat) : (newline level).length = 2 * level + 1 := by
  simp [newline]

theorem skipSpace_newline_cons {c : Char} (h : isSpace c = false) (level : Nat) (cs : List Char) :
    skipSpace (newline level ++ c :: cs) = c :: cs := by
  rw [skipSpace_newline, skipSpace_cons h]

theorem itemsChars_singleton (level : Nat) (item : Json) :
    prettyChars.itemsChars level [item] = newline level ++ prettyChars level item := by
  rw [prettyChars.itemsChars]

theorem itemsChars_cons (level : Nat) (item next : Json) (items : List Json) :
    prettyChars.itemsChars level (item :: next :: items) =
      newline level ++
        (prettyChars level item ++ ',' :: prettyChars.itemsChars level (next :: items)) := by
  simp [prettyChars.itemsChars]

def memberChars (level : Nat) (m : String × Json) : List Char :=
  stringChars m.1 ++ ':' :: ' ' :: prettyChars level m.2

theorem membersChars_singleton (level : Nat) (m : String × Json) :
    prettyChars.membersChars level [m] = newline level ++ memberChars level m := by
  simp [prettyChars.membersChars, memberChars]

theorem membersChars_cons (level : Nat) (m next : String × Json) (members : List (String × Json)) :
    prettyChars.membersChars level (m :: next :: members) =
      newline level ++
        (memberChars level m ++ ',' :: prettyChars.membersChars level (next :: members)) := by
  simp [prettyChars.membersChars, memberChars]

/-- An entry on its line is read before a comma or the closing bracket. -/
def ReadsLine {ε ρ : Type} (carries : ρ → ε → Prop) (text : ε → List Char)
    (read : Nat → List ρ → List Char → Option (Raw × List Char)) (wrap : List ρ → Raw)
    (close : Char) (level : Nat) (entry : ε) : Prop :=
  ∀ fuel after, (text entry).length ≤ fuel → Stops after → ∃ raw, carries raw entry ∧ ∀ acc rest,
    let line := newline level ++ (text entry ++ after)
    (skipSpace after = ',' :: rest → read (fuel + 1) acc line = read fuel (raw :: acc) rest) ∧
    (skipSpace after = close :: rest →
      read (fuel + 1) acc line = some (wrap (acc.reverse ++ [raw]), rest))

/-- Entries on lines are read one after the other, up to the closing bracket. -/
theorem read_lines {ε ρ : Type} {carries : ρ → ε → Prop} {text : ε → List Char}
    {read : Nat → List ρ → List Char → Option (Raw × List Char)} {wrap : List ρ → Raw}
    {close : Char} (hclose : isSpace close = false) {chars : List ε → List Char}
    (hsingle : ∀ e, chars [e] = newline level ++ text e)
    (hcons : ∀ e next es, chars (e :: next :: es) =
      newline level ++ (text e ++ ',' :: chars (next :: es))) {entries : List ε}
    (h : ∀ e ∈ entries, ReadsLine carries text read wrap close level e) (hne : entries ≠ [])
    (fuel outer : Nat) (rest : List Char) (hfuel : (chars entries).length ≤ fuel) (acc : List ρ) :
    ∃ raws, List.Forall₂ carries raws entries ∧
      read fuel acc (chars entries ++ (newline outer ++ close :: rest)) =
        some (wrap (acc.reverse ++ raws), rest) := by
  induction entries generalizing fuel acc with
  | nil => exact absurd rfl hne
  | cons entry entries ih =>
    have hentry := h entry List.mem_cons_self
    cases entries with
    | nil =>
      rw [hsingle] at hfuel ⊢
      simp only [List.length_append, length_newline] at hfuel
      obtain ⟨fuel, rfl⟩ := Nat.exists_eq_add_one_of_ne_zero (show fuel ≠ 0 by omega)
      obtain ⟨raw, hcarries, hline⟩ := hentry fuel _ (by omega)
        (stops_newline outer (close :: rest))
      refine ⟨[raw], .cons hcarries .nil, ?_⟩
      rw [List.append_assoc, (hline acc rest).2 (skipSpace_newline_cons hclose outer rest)]
    | cons next entries =>
      rw [hcons] at hfuel ⊢
      simp only [List.length_append, List.length_cons, length_newline] at hfuel
      obtain ⟨fuel, rfl⟩ := Nat.exists_eq_add_one_of_ne_zero (show fuel ≠ 0 by omega)
      obtain ⟨raw, hcarries, hline⟩ := hentry fuel _ (by omega)
        (stops_comma (chars (next :: entries) ++ (newline outer ++ close :: rest)))
      obtain ⟨raws, hraws, hrest⟩ := ih (fun e he => h e (List.mem_cons_of_mem _ he)) (by simp)
        fuel (by omega) (raw :: acc)
      refine ⟨raw :: raws, .cons hcarries hraws, ?_⟩
      simp only [List.append_assoc, List.cons_append]
      rw [(hline acc _).1 (skipSpace_cons (by decide) _), hrest]
      simp

theorem readItems_line {item : Json} (h : Readable item) (level : Nat) :
    ReadsLine Raw.Carries (prettyChars level) readItems .arr ']' level item := by
  intro fuel after hfuel hafter
  obtain ⟨raw, hcarries, hread⟩ := h fuel level after hfuel hafter
  refine ⟨raw, hcarries, fun acc rest => ⟨fun hnext => ?_, fun hnext => ?_⟩⟩
  all_goals
    rw [readItems, readValue_congr (skipSpace_newline level _), hread]
    simp [hnext]

theorem readMembers_line {m : String × Json} (h : Readable m.2) (level : Nat) :
    ReadsLine CarriesMember (memberChars level) readMembers .obj '\x7d' level m := by
  intro fuel after hfuel hafter
  simp only [memberChars, List.length_append, List.length_cons] at hfuel
  obtain ⟨raw, hcarries, hread⟩ := h fuel level after (by omega) hafter
  have hblank : readValue fuel (' ' :: (prettyChars level m.2 ++ after)) = some (raw, after) := by
    rw [← hread]
    exact readValue_congr (List.dropWhile_cons_of_pos (by decide)) fuel
  refine ⟨(some m.1, raw), ⟨rfl, hcarries⟩, fun acc rest => ⟨fun hnext => ?_, fun hnext => ?_⟩⟩
  all_goals
    rw [readMembers_congr (skipSpace_newline level _), memberChars, List.append_assoc, stringChars,
      List.cons_append, List.append_assoc, List.singleton_append, readMembers,
      skipSpace_cons (by decide)]
    simp [readString_flatMap_escapeChar, skipSpace_cons (show isSpace ':' = false by decide),
      hblank, hnext]

/-! ## Brackets -/

/-- The text starts with neither a blank nor a closing bracket. -/
def Opens (cs : List Char) : Prop :=
  ∃ c rest, cs = c :: rest ∧ isSpace c = false ∧ c ≠ ']' ∧ c ≠ '\x7d'

theorem Opens.append (h : Opens cs) (rest : List Char) : Opens (cs ++ rest) := by
  obtain ⟨c, cs, rfl, hc⟩ := h
  exact ⟨c, cs ++ rest, rfl, hc⟩

theorem opens_prettyChars (h : j.isExact = true) (level : Nat) : Opens (prettyChars level j) := by
  cases j with
  | null => exact ⟨'n', _, rfl, by decide⟩
  | bool b =>
    cases b
    · exact ⟨'f', _, rfl, by decide⟩
    · exact ⟨'t', _, rfl, by decide⟩
  | int n =>
    by_cases hn : n < 0
    · exact ⟨'-', _, if_pos hn, by decide⟩
    · obtain ⟨d, ds, hds, hne⟩ := exists_toDigits n.natAbs
      refine ⟨d, ds, (if_neg hn).trans hds, ?_⟩
      exact ⟨isSpace_digit hne, hne _ (by decide), hne _ (by decide)⟩
  | float x => cases h
  | str s => exact ⟨'"', _, rfl, by decide⟩
  | arr items =>
    cases items with
    | nil => exact ⟨'[', _, rfl, by decide⟩
    | cons item items => exact ⟨'[', _, rfl, by decide⟩
  | obj members =>
    cases members with
    | nil => exact ⟨'\x7b', _, rfl, by decide⟩
    | cons m members => exact ⟨'\x7b', _, rfl, by decide⟩

/-- Every text has a character, so there is fuel for one step. -/
theorem exists_fuel (h : j.isExact = true) (hfuel : (prettyChars level j).length ≤ fuel) :
    ∃ f, fuel = f + 1 := by
  obtain ⟨c, cs, hcs, -⟩ := opens_prettyChars h level
  rw [hcs, List.length_cons] at hfuel
  exact Nat.exists_eq_add_one_of_ne_zero (by omega)

theorem readValue_bracket (h : Opens cs) :
    readValue (fuel + 1) ('[' :: (newline level ++ cs)) =
      readItems fuel [] (newline level ++ cs) := by
  obtain ⟨c, cs, rfl, hblank, hne, -⟩ := h
  have hskip := skipSpace_newline_cons hblank level cs
  rw [readValue, skipSpace_cons (by decide)]
  simp only [hskip]
  rw [readItems_congr (hskip.trans (skipSpace_cons hblank cs).symm)]
  split
  · rename_i heq
    exact absurd (List.cons.inj heq).1 hne
  · rfl

theorem readValue_brace (h : Opens cs) :
    readValue (fuel + 1) ('\x7b' :: (newline level ++ cs)) =
      readMembers fuel [] (newline level ++ cs) := by
  obtain ⟨c, cs, rfl, hblank, -, hne⟩ := h
  have hskip := skipSpace_newline_cons hblank level cs
  rw [readValue, skipSpace_cons (by decide)]
  simp only [hskip]
  rw [readMembers_congr (hskip.trans (skipSpace_cons hblank cs).symm)]
  split
  · rename_i heq
    exact absurd (List.cons.inj heq).1 hne
  · rfl

theorem exists_itemsChars {item : Json} (h : item.isExact = true) (level : Nat)
    (items : List Json) :
    ∃ cs, prettyChars.itemsChars level (item :: items) = newline level ++ cs ∧ Opens cs := by
  cases items with
  | nil => exact ⟨_, itemsChars_singleton level item, opens_prettyChars h level⟩
  | cons next items =>
    exact ⟨_, itemsChars_cons level item next items, (opens_prettyChars h level).append _⟩

theorem exists_membersChars (level : Nat) (m : String × Json) (members : List (String × Json)) :
    ∃ cs, prettyChars.membersChars level (m :: members) = newline level ++ cs ∧ Opens cs := by
  cases members with
  | nil => exact ⟨_, membersChars_singleton level m, '"', _, rfl, by decide⟩
  | cons next members => exact ⟨_, membersChars_cons level m next members, '"', _, rfl, by decide⟩

theorem readable_arr {items : List Json} (h : ∀ item ∈ items, Readable item)
    (hexact : (arr items).isExact = true) : Readable (arr items) := by
  intro fuel level rest hfuel _
  cases items with
  | nil =>
    obtain ⟨fuel, rfl⟩ := exists_fuel hexact hfuel
    exact ⟨.arr [], Raw.carries_arr .nil, by rw [readValue]; rfl⟩
  | cons item items =>
    simp only [prettyChars, List.length_cons, List.length_append] at hfuel
    obtain ⟨fuel, rfl⟩ := Nat.exists_eq_add_one_of_ne_zero (show fuel ≠ 0 by omega)
    obtain ⟨raws, hraws, hread⟩ := read_lines (by decide) (itemsChars_singleton _)
      (itemsChars_cons _) (fun item hitem => readItems_line (h item hitem) (level + 1)) (by simp)
      fuel level rest (by omega) []
    obtain ⟨cs, hcs, hopens⟩ :=
      exists_itemsChars (isExact_arr.mp hexact item (by simp)) (level + 1) items
    refine ⟨.arr raws, Raw.carries_arr hraws, ?_⟩
    rw [hcs, List.append_assoc] at hread
    rw [prettyChars, hcs]
    simp only [List.cons_append, List.append_assoc, List.nil_append]
    rw [readValue_bracket (hopens.append _), hread]
    · rfl
    · simp

theorem readable_obj {members : List (String × Json)} (h : ∀ m ∈ members, Readable m.2)
    (hexact : (obj members).isExact = true) : Readable (obj members) := by
  intro fuel level rest hfuel _
  cases members with
  | nil =>
    obtain ⟨fuel, rfl⟩ := exists_fuel hexact hfuel
    exact ⟨.obj [], Raw.carries_obj .nil, by rw [readValue]; rfl⟩
  | cons m members =>
    simp only [prettyChars, List.length_cons, List.length_append] at hfuel
    obtain ⟨fuel, rfl⟩ := Nat.exists_eq_add_one_of_ne_zero (show fuel ≠ 0 by omega)
    obtain ⟨raws, hraws, hread⟩ := read_lines (by decide) (membersChars_singleton _)
      (membersChars_cons _) (fun m hm => readMembers_line (h m hm) (level + 1)) (by simp)
      fuel level rest (by omega) []
    obtain ⟨cs, hcs, hopens⟩ := exists_membersChars (level + 1) m members
    refine ⟨.obj raws, Raw.carries_obj hraws, ?_⟩
    rw [hcs, List.append_assoc] at hread
    rw [prettyChars, hcs]
    simp only [List.cons_append, List.append_assoc, List.nil_append]
    rw [readValue_brace (hopens.append _), hread]
    · rfl
    · simp

/-! ## Values -/

theorem readable_leaf (hexact : j.isExact = true)
    (hpretty : ∀ level, prettyChars level j = leafChars j)
    (hread : ∀ {fuel : Nat} {rest : List Char}, Stops rest → ∃ raw, Raw.Carries raw j ∧
      readValue (fuel + 1) (leafChars j ++ rest) = some (raw, rest)) : Readable j := by
  intro fuel level rest hfuel hrest
  obtain ⟨fuel, rfl⟩ := exists_fuel hexact hfuel
  rw [hpretty]
  exact hread hrest

mutual

theorem readable : (j : Json) → j.isExact = true → Readable j
  | null, h => readable_leaf h (fun _ => rfl) fun _ =>
    ⟨.null, fun _ _ _ _ => rfl, by rw [readValue]; rfl⟩
  | bool true, h => readable_leaf h (fun _ => rfl) fun _ =>
    ⟨.bool true, fun _ _ _ _ => rfl, by rw [readValue]; rfl⟩
  | bool false, h => readable_leaf h (fun _ => rfl) fun _ =>
    ⟨.bool false, fun _ _ _ _ => rfl, by rw [readValue]; rfl⟩
  | int _, h => readable_leaf h (fun _ => rfl) fun hrest => readValue_intChars h hrest
  | float _, h => by cases h
  | str s, h => readable_leaf h (fun _ => rfl) fun _ =>
    ⟨.str (some s), fun _ _ _ _ => rfl, readValue_stringChars s⟩
  | arr items, h => readable_arr (readable_items items (isExact_arr.mp h)) h
  | obj members, h => readable_obj (readable_members members (isExact_obj.mp h)) h

theorem readable_items : (items : List Json) → (∀ item ∈ items, item.isExact = true) →
    ∀ item ∈ items, Readable item
  | [], _ => by simp
  | item :: items, h => List.forall_mem_cons.mpr
    ⟨readable item (h item List.mem_cons_self),
      readable_items items fun i hi => h i (List.mem_cons_of_mem _ hi)⟩

theorem readable_members : (members : List (String × Json)) →
    (∀ m ∈ members, m.2.isExact = true) → ∀ m ∈ members, Readable m.2
  | [], _ => by simp
  | (key, value) :: members, h => List.forall_mem_cons.mpr
    ⟨readable value (h (key, value) List.mem_cons_self),
      readable_members members fun m hm => h m (List.mem_cons_of_mem _ hm)⟩

end

/-- A value without doubles is read back from its pretty text, if it is not nested too deep and all
of it is asked for. -/
theorem parseAs?_pretty (h : Within maxDepth j) {shape : Shape} (hfits : Fits shape j) :
    parseAs? shape j.pretty = some j := by
  obtain ⟨raw, hcarries, hread⟩ := readable j h.1 ((prettyChars 0 j).length + 1) 0 []
    (by omega) stops_nil
  have hraw : readRaw j.pretty = some raw := by
    rw [List.append_nil] at hread
    simp [readRaw, pretty, hread, skipSpace]
  rw [parseAs?, hraw]
  exact hcarries maxDepth shape h.2 hfits

end TxGraph.Json
