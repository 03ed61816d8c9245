import TxGraph.Proofs.Json.Text
import TxGraph.Proofs.Pure.Recode
import TxGraph.Proofs.Text.StringLiteral
import TxGraph.Script.Printer

/-!
# Values in scripts

A reader of the values that a script writes down: truth values, numbers, big integers, texts in
either kind of quotes, and arrays. It knows nothing of types. What a value is at a kind is said
apart, in `Value.data?`. The text of data that bytes are decoded into is read as a value that is
just these data (`readsAs_valueText`).
-/

namespace TxGraph.Script

/-- A value as a script writes it. -/
inductive Value
  | bool (b : Bool)
  | number (n : Nat)
  | bigInteger (n : Nat)
  | text (s : String)
  | array (items : List Value)

namespace Value

/-! ## Reading -/

/-- What ends a word among arguments or in an array. -/
def isStop (c : Char) : Bool :=
  c == ',' || c == ']' || c == ')'

/-- An integer in hexadecimal, or in decimal without needless zeros. -/
def wordNat? : List Char → Option Nat
  | '0' :: 'x' :: digits =>
    if digits.isEmpty then none
    else digits.foldlM (fun n c => (Hex.digitValue? c).map (16 * n + ·)) 0
  | digits =>
    if Text.isDigits digits && (digits.length == 1 || digits.head? != some '0') then
      some (Text.digitsToNat digits)
    else none

/-- A truth value or an integer. Big integers end in a letter. -/
def ofWord? (word : List Char) : Option Value :=
  if word = "true".toList then some (bool true)
  else if word = "false".toList then some (bool false)
  else if word.getLast? = some 'n' then (wordNat? word.dropLast).map bigInteger
  else (wordNat? word).map number

def readText? (quote : Char) (cs : List Char) : Option (String × List Char) := do
  let (units, rest) ← Text.lex quote cs
  let text ← Text.ofUnits? units
  return (String.ofList text, rest)

def readItems? (read : List Char → Option (Value × List Char)) :
    (fuel : Nat) → List Char → Option (List Value × List Char)
  | 0, _ => none
  | fuel + 1, cs =>
    match read cs with
    | some (item, ']' :: rest) => some ([item], rest)
    | some (item, ',' :: ' ' :: rest) =>
      (readItems? read fuel rest).map fun r => (item :: r.1, r.2)
    | _ => none

/-- A value at the front of the characters, and the characters after it. Each array and each of its
items uses one unit of fuel. -/
def readFrom? : (fuel : Nat) → List Char → Option (Value × List Char)
  | 0, _ => none
  | fuel + 1, cs =>
    match cs with
    | '[' :: ']' :: rest => some (array [], rest)
    | '[' :: rest => (readItems? (readFrom? fuel) fuel rest).map fun r => (array r.1, r.2)
    | '"' :: _ => (readText? '"' cs).map fun r => (text r.1, r.2)
    | '\x27' :: _ => (readText? '\x27' cs).map fun r => (text r.1, r.2)
    | _ => (ofWord? (cs.takeWhile (!isStop ·))).map fun v => (v, cs.dropWhile (!isStop ·))

def read? (cs : List Char) : Option (Value × List Char) :=
  readFrom? (cs.length + 1) cs

/-! ## Meaning -/

/-- Plain numbers are exact up to here. -/
def maxNumber : Nat := 9007199254740991

/-- The data that a value is at a kind. Only wide integers may be big ones. -/
def data? : ParamKind → Value → Option Json
  | .bool, bool b => some (.bool b)
  | .string, text s => some (.str s)
  | .address, text s => Literal.data?.shownAddress s
  | .id, text s => Literal.data?.shownAddress s
  | .integer _, number n => if n ≤ maxNumber then some (.str n.repr) else none
  | .integer width, bigInteger n => if 32 < width.bits then some (.str n.repr) else none
  | .vector elem, array items => (items.mapM (data? elem)).map .arr
  | _, _ => none

/-! ## What is read as what -/

/-- The characters are read as the value, wherever a value may stand. -/
def ReadsAs (cs : List Char) (v : Value) : Prop :=
  ∀ (fuel : Nat) (c : Char) (rest : List Char), cs.length < fuel → isStop c = true →
    readFrom? fuel (cs ++ c :: rest) = some (v, c :: rest)

theorem readFrom?_word (fuel : Nat) {c : Char} (h : c.isAlphanum = true) (cs : List Char) :
    readFrom? (fuel + 1) (c :: cs) = (ofWord? ((c :: cs).takeWhile (!isStop ·))).map fun v =>
      (v, (c :: cs).dropWhile (!isStop ·)) := by
  rw [readFrom?]
  all_goals
    intro rest heq
    cases heq
    cases h

/-- No value begins with a closing bracket. -/
theorem readItems?_bracket (fuel count : Nat) (cs : List Char) :
    readItems? (readFrom? fuel) count (']' :: cs) = none := by
  have hnone : readFrom? fuel (']' :: cs) = none := by
    cases fuel with
    | zero => rfl
    | succ fuel => simp [readFrom?, isStop, ofWord?, wordNat?, Text.isDigits]
  cases count with
  | zero => rfl
  | succ count => simp only [readItems?, hnone]

theorem readsAs_word {word : List Char} {v : Value} (hword : ∀ c ∈ word, c.isAlphanum = true)
    (h : ofWord? word = some v) : ReadsAs word v := by
  intro fuel c rest hfuel hc
  obtain ⟨fuel, rfl⟩ : ∃ n, fuel = n + 1 := ⟨fuel - 1, by omega⟩
  have hgo : ∀ d ∈ word, (!isStop d) = true := by
    intro d hd
    have halpha := hword d hd
    rw [Bool.not_eq_true', isStop, Bool.or_eq_false_iff, Bool.or_eq_false_iff]
    refine ⟨⟨?_, ?_⟩, ?_⟩ <;>
    · rw [beq_eq_false_iff_ne]
      rintro rfl
      cases halpha
  have htake : (word ++ c :: rest).takeWhile (!isStop ·) = word := by
    rw [List.takeWhile_append_of_pos hgo, List.takeWhile_cons_of_neg (by simp [hc]),
      List.append_nil]
  have hdrop : (word ++ c :: rest).dropWhile (!isStop ·) = c :: rest := by
    rw [List.dropWhile_append_of_pos hgo, List.dropWhile_cons_of_neg (by simp [hc])]
  cases word with
  | nil => cases h
  | cons d word =>
    rw [List.cons_append] at htake hdrop ⊢
    rw [readFrom?_word fuel (hword d List.mem_cons_self), htake, hdrop, h, Option.map_some]

theorem readsAs_text {quote : Char} {cs : List Char} {s : String}
    (hquote : quote = '"' ∨ quote = '\x27')
    (h : ∀ rest, Text.lex quote (quote :: (cs ++ rest)) = some (Text.units s.toList, rest)) :
    ReadsAs (quote :: cs) (text s) := by
  intro fuel c rest hfuel _
  obtain ⟨fuel, rfl⟩ : ∃ n, fuel = n + 1 := ⟨fuel - 1, by omega⟩
  have htext : readText? quote (quote :: (cs ++ c :: rest)) = some (s, c :: rest) := by
    simp [readText?, h, Text.ofUnits?_units]
  rcases hquote with rfl | rfl
  · rw [List.cons_append, readFrom?, htext, Option.map_some]
  · rw [List.cons_append, readFrom?, htext, Option.map_some]

/-- No item of a joined text is longer than the text, and there are not many more of them than it
has characters. -/
theorem length_le_intercalate (texts : List (List Char)) :
    (∀ cs ∈ texts, cs.length ≤ ([',', ' '].intercalate texts).length) ∧
      texts.length ≤ ([',', ' '].intercalate texts).length + 1 := by
  induction texts with
  | nil => simp
  | cons cs texts ih =>
    cases texts with
    | nil => simp
    | cons ds texts =>
      have hlength : ([',', ' '].intercalate (cs :: ds :: texts)).length =
          cs.length + 2 + ([',', ' '].intercalate (ds :: texts)).length := by
        rw [List.intercalate_cons_cons]
        simp only [List.length_append, List.length_cons, List.length_nil]
      refine ⟨List.forall_mem_cons.mpr ⟨by omega, fun es hes => ?_⟩, ?_⟩
      · have := ih.1 es hes
        omega
      · rw [List.length_cons]
        omega

/-- The items of an array are read one after the other. -/
theorem readItems?_intercalate {read : List Char → Option (Value × List Char)}
    {texts : List (List Char)} {vs : List Value}
    (h : List.Forall₂ (fun cs v => ∀ (c : Char) (rest : List Char), isStop c = true →
      read (cs ++ c :: rest) = some (v, c :: rest)) texts vs) (hne : texts ≠ []) {fuel : Nat}
    (hfuel : texts.length ≤ fuel) (rest : List Char) :
    readItems? read fuel ([',', ' '].intercalate texts ++ ']' :: rest) = some (vs, rest) := by
  induction h generalizing fuel with
  | nil => exact absurd rfl hne
  | @cons cs v texts vs hfirst hrest ih =>
    rw [List.length_cons] at hfuel
    obtain ⟨fuel, rfl⟩ : ∃ n, fuel = n + 1 := ⟨fuel - 1, by omega⟩
    cases hrest with
    | nil => simp only [List.intercalate_singleton, readItems?, hfirst ']' _ rfl]
    | @cons ds _ texts _ _ _ =>
      have hmore := ih (List.cons_ne_nil _ _) (Nat.le_of_succ_le_succ hfuel)
      have hjoin : [',', ' '].intercalate (cs :: ds :: texts) ++ ']' :: rest =
          cs ++ ',' :: ' ' :: ([',', ' '].intercalate (ds :: texts) ++ ']' :: rest) := by
        rw [List.intercalate_cons_cons]
        simp
      rw [hjoin]
      simp only [readItems?, hfirst ',' _ rfl, hmore, Option.map_some]

theorem readsAs_array {texts : List (List Char)} {vs : List Value}
    (h : List.Forall₂ ReadsAs texts vs) :
    ReadsAs ('[' :: ([',', ' '].intercalate texts ++ [']'])) (array vs) := by
  intro fuel c rest hfuel _
  obtain ⟨fuel, rfl⟩ : ∃ n, fuel = n + 1 := ⟨fuel - 1, by omega⟩
  obtain ⟨hlength, hcount⟩ := length_le_intercalate texts
  simp only [List.length_cons, List.length_append, List.length_nil] at hfuel
  rw [List.cons_append, List.append_assoc, List.singleton_append]
  by_cases hne : texts = []
  · subst hne
    cases h
    rfl
  · have hshort : ∀ cs ∈ texts, cs.length < fuel := by
      intro cs hcs
      have := hlength cs hcs
      omega
    have hitems : readItems? (readFrom? fuel) fuel
        ([',', ' '].intercalate texts ++ ']' :: c :: rest) = some (vs, c :: rest) :=
      readItems?_intercalate
        (((List.forall₂_and_left _ _).mpr ⟨hshort, h⟩).imp fun _ _ hread _ _ =>
          hread.2 fuel _ _ hread.1)
        hne (by omega) (c :: rest)
    rw [readFrom?, hitems, Option.map_some]
    intro tail heq
    rw [heq, readItems?_bracket] at hitems
    cases hitems

/-! ## The text of data -/

theorem wordNat?_repr (n : Nat) : wordNat? n.repr.toList = some n := by
  have hzeros : (n.repr.toList.length == 1 || n.repr.toList.head? != some '0') = true := by
    rcases Nat.eq_zero_or_pos n with rfl | hpos
    · rfl
    · rw [Nat.toList_repr, Bool.or_eq_true, bne_iff_ne]
      exact .inr (Json.head?_toDigits hpos)
  rw [wordNat?, Text.isDigits_repr, hzeros, Bool.and_true, if_pos rfl, Text.digitsToNat_repr]
  intro digits heq
  have hx : 'x'.isDigit = true := Text.isDigit_of_mem_repr (n := n) (by simp [heq])
  cases hx

theorem ofWord?_repr (n : Nat) : ofWord? n.repr.toList = some (number n) := by
  have hnot {c : Char} (hc : c.isDigit = false) : c ∉ n.repr.toList := by
    intro hmem
    rw [Text.isDigit_of_mem_repr hmem] at hc
    cases hc
  have htrue : n.repr.toList ≠ "true".toList := fun h => hnot (c := 't') rfl (h ▸ by decide)
  have hfalse : n.repr.toList ≠ "false".toList := fun h => hnot (c := 'f') rfl (h ▸ by decide)
  have hbig : n.repr.toList.getLast? ≠ some 'n' := fun h =>
    hnot (c := 'n') rfl (List.mem_of_getLast? h)
  rw [ofWord?, if_neg htrue, if_neg hfalse, if_neg hbig, wordNat?_repr, Option.map_some]

theorem ofWord?_repr_big (n : Nat) :
    ofWord? (n.repr.toList ++ ['n']) = some (bigInteger n) := by
  have hlast : (n.repr.toList ++ ['n']).getLast? = some 'n' := List.getLast?_concat
  have htrue : n.repr.toList ++ ['n'] ≠ "true".toList := by
    intro h
    rw [h] at hlast
    cases hlast
  have hfalse : n.repr.toList ++ ['n'] ≠ "false".toList := by
    intro h
    rw [h] at hlast
    cases hlast
  rw [ofWord?, if_neg htrue, if_neg hfalse, if_pos hlast, List.dropLast_concat, wordNat?_repr,
    Option.map_some]

theorem readsAs_integerText {width : Width} {n : Nat} (h : n < Nat.pow 2 width.bits) :
    ∃ v, ReadsAs (integerText n.repr width).toList v ∧
      v.data? (.integer width) = some (.str n.repr) := by
  have halpha : ∀ c ∈ n.repr.toList, c.isAlphanum = true := by
    intro c hc
    rw [Char.isAlphanum, Text.isDigit_of_mem_repr hc, Bool.or_true]
  have hnumber (hsmall : n ≤ maxNumber) : ReadsAs n.repr.toList (number n) ∧
      (number n).data? (.integer width) = some (.str n.repr) :=
    ⟨readsAs_word halpha (ofWord?_repr n), by rw [data?, if_pos hsmall]⟩
  have hbig (hwide : 32 < width.bits) : ReadsAs (n.repr ++ "n").toList (bigInteger n) ∧
      (bigInteger n).data? (.integer width) = some (.str n.repr) := by
    refine ⟨?_, by rw [data?, if_pos hwide]⟩
    rw [String.toList_append]
    refine readsAs_word ?_ (ofWord?_repr_big n)
    exact List.forall_mem_append.mpr ⟨halpha, List.all_eq_true.mp (by decide)⟩
  cases width with
  | u8 => exact ⟨_, hnumber (Nat.le_of_lt (Nat.lt_of_lt_of_le h (by decide)))⟩
  | u16 => exact ⟨_, hnumber (Nat.le_of_lt (Nat.lt_of_lt_of_le h (by decide)))⟩
  | u32 => exact ⟨_, hnumber (Nat.le_of_lt (Nat.lt_of_lt_of_le h (by decide)))⟩
  | u64 => exact ⟨_, hbig (by decide)⟩
  | u128 => exact ⟨_, hbig (by decide)⟩
  | u256 => exact ⟨_, hbig (by decide)⟩

theorem readsAs_singleQuoted (s : String) :
    ReadsAs (Text.singleQuoted s).toList (text s) := by
  have hlex := Text.lex_singleQuoted s
  rw [Text.toList_singleQuoted] at hlex ⊢
  exact readsAs_text (.inr rfl) hlex

theorem reads_escapeChar (c : Char) :
    Text.Reads '"' (Json.escapeChar c) (Text.unitsOf c.toNat) := by
  rcases Json.escapeChar_cases c with
    ⟨e, -, hvalue, heq⟩ | ⟨hlow, heq⟩ | ⟨hhigh, hquote, hslash, heq⟩
  · rw [heq]
    refine Text.reads_escape (by decide) ?_
    unfold Json.simpleEscape? at hvalue
    split at hvalue <;> cases hvalue <;> rfl
  · have hcode : Json.escapeChar c = '\\' :: 'u' :: Text.fourHex c.toNat := by
      have hfirst : c.toNat / 4096 % 16 = 0 := by omega
      have hsecond : c.toNat / 256 % 16 = 0 := by omega
      have hthird : c.toNat / 16 % 16 = c.toNat / 16 := by omega
      rw [heq, Text.fourHex, hfirst, hsecond, List.map_cons, List.map_cons, List.map_cons, hthird]
      rfl
    rw [hcode]
    exact Text.reads_fourHex (by decide) (by omega)
  · rw [heq]
    refine Text.reads_plain hquote hslash ?_ ?_ <;>
    · rintro rfl
      revert hhigh
      decide

theorem readsAs_compact (s : String) : ReadsAs (Json.str s).compact.toList (text s) := by
  have hchars : (Json.str s).compact.toList =
      '"' :: (s.toList.flatMap Json.escapeChar ++ ['"']) := by
    rw [Json.compact, String.toList_ofList]
    rfl
  rw [hchars]
  refine readsAs_text (.inl rfl) fun rest => ?_
  rw [List.append_assoc]
  exact (Text.reads_flatMap reads_escapeChar s.toList).lex rest

theorem readsAs_bool (b : Bool) : ReadsAs (Json.bool b).compact.toList (bool b) := by
  cases b <;> exact readsAs_word (List.all_eq_true.mp (by decide)) rfl

theorem shownAddress_format {bs : Bytes} (h : bs.length = 32) :
    Literal.data?.shownAddress (Address.format bs) = some (.str (Address.format bs)) := by
  rw [Literal.data?.shownAddress, Address.parse?_format h, Option.map_some]

theorem toList_commaList (items : List String) :
    (commaList items).toList =
      '[' :: ([',', ' '].intercalate (items.map String.toList) ++ [']']) := by
  simp [commaList]

/-- **The text of decoded data** is read as a value that is these data. -/
theorem readsAs_valueText {kind : ParamKind} {data : Json} {bs : Bytes}
    (h : PureValue.Written .loose kind.dataType data bs) :
    ∃ v, ReadsAs (valueText kind.dataType data).toList v ∧ v.data? kind = some data := by
  induction kind generalizing data bs with
  | bool =>
    obtain ⟨b, rfl, -⟩ := h
    exact ⟨bool b, readsAs_bool b, rfl⟩
  | string =>
    obtain ⟨s, rfl, -⟩ := h
    exact ⟨text s, readsAs_compact s, rfl⟩
  | address =>
    obtain ⟨hlen, rfl⟩ := h
    exact ⟨_, readsAs_singleQuoted _, shownAddress_format hlen⟩
  | id =>
    obtain ⟨-, hlen, rfl⟩ := h
    exact ⟨_, readsAs_singleQuoted _, shownAddress_format hlen⟩
  | integer width =>
    obtain ⟨hlen, rfl⟩ := h
    refine readsAs_integerText ?_
    rw [← PureValue.byteSize_pow, ← hlen]
    exact Bytes.toNatLE_lt bs
  | vector elem ih =>
    obtain ⟨datas, _, parts, rfl, -, hparts, -⟩ := h
    have hall : ∃ vs, List.Forall₂ ReadsAs
        (datas.map fun data => (valueText elem.dataType data).toList) vs ∧
        vs.mapM (data? elem) = some datas := by
      induction hparts with
      | nil => exact ⟨[], .nil, rfl⟩
      | cons hpart _ ihrest =>
        obtain ⟨v, hread, hdata⟩ := ih hpart
        obtain ⟨vs, hreads, hdatas⟩ := ihrest
        refine ⟨v :: vs, .cons hread hreads, ?_⟩
        rw [List.mapM_cons, hdata, hdatas]
        rfl
    obtain ⟨vs, hreads, hdatas⟩ := hall
    refine ⟨array vs, ?_, by rw [data?, hdatas, Option.map_some]⟩
    rw [ParamKind.dataType, valueText, toList_commaList, List.map_map]
    exact readsAs_array hreads
  | handle => cases h.1
  | other => exact h.elim

end Value

end TxGraph.Script
