import TxGraph.DataType.Move
import TxGraph.Proofs.Text

/-!
# Spellings of types

A type that is read from a spelling is read again from its own spelling. Tags are kept without blanks
and with a short address, so they do not change when they are read again.
-/

namespace TxGraph.DataType

variable {cs : List Char}

/-! ## Tags -/

theorem splitPath_cons {c : Char} (hc : c ≠ ':') (cs : List Char) :
    splitPath (c :: cs) = (splitPath cs).map fun (front, back) => (c :: front, back) := by
  rw [splitPath]
  exact fun _ heq _ => hc heq

theorem isSome_splitPath_cons {c : Char} (h : (splitPath cs).isSome = true) :
    (splitPath (c :: cs)).isSome = true := by
  unfold splitPath
  split
  · rfl
  · cases ‹_ = _›
    rwa [Option.isSome_map]
  · cases ‹_ = _›

theorem isSome_splitPath_filter {p : Char → Bool} (hp : p ':' = true) :
    (splitPath cs).isSome = true → (splitPath (cs.filter p)).isSome = true := by
  fun_induction splitPath cs with
  | case1 rest => simp [hp, splitPath]
  | case2 c rest _ ih =>
    intro h
    rw [Option.isSome_map] at h
    rw [List.filter_cons]
    split
    · exact isSome_splitPath_cons (ih h)
    · exact ih h
  | case3 => exact nofun

/-- What stands before the first double colon can be cut from the front. -/
theorem splitPath_of_suffix {front back : List Char} (h : splitPath cs = some (front, back)) :
    cs = front ++ ':' :: ':' :: back ∧
      ∀ mid, mid <:+ front → splitPath (mid ++ ':' :: ':' :: back) = some (mid, back) := by
  fun_induction splitPath cs generalizing front with
  | case1 rest =>
    cases h
    refine ⟨rfl, fun mid hmid => ?_⟩
    rw [List.suffix_nil.mp hmid]
    rfl
  | case2 c rest hnot ih =>
    obtain ⟨⟨front, back⟩, hrest, heq⟩ := Option.map_eq_some_iff.mp h
    cases heq
    obtain ⟨rfl, hcut⟩ := ih hrest
    refine ⟨rfl, fun mid hmid => ?_⟩
    rcases List.suffix_cons_iff.mp hmid with rfl | hmid
    · rw [List.cons_append, splitPath, hcut _ List.suffix_rfl]
      · rfl
      · exact hnot
    · exact hcut mid hmid
  | case3 => cases h

/-- A tag in the form that is kept: no blanks, and a short address in front. -/
structure IsTag (tag : List Char) : Prop where
  front : ∃ rest, tag = '0' :: 'x' :: rest
  solid : ∀ c ∈ tag, Text.isBlank c = false
  splits : (splitPath tag).isSome = true
  fixed : normalizeTag tag = String.ofList tag

/-- The digits of an address after its marks and zeros; a single zero if nothing is left. -/
def shortDigits (address : List Char) : List Char :=
  let digits := (stripHexMarks address).dropWhile (· == '0')
  if digits.isEmpty then ['0'] else digits

theorem normalizeTag_of_splitPath {kept address rest : List Char}
    (hkept : (cs.filter fun c => !Text.isBlank c) = kept)
    (h : splitPath kept = some (address, rest)) :
    normalizeTag cs = String.ofList ('0' :: 'x' :: shortDigits address ++ ':' :: ':' :: rest) := by
  simp only [normalizeTag, hkept, h]
  rw [List.append_assoc, List.append_assoc]
  rfl

theorem stripHexMarks_suffix (cs : List Char) : stripHexMarks cs <:+ cs := by
  fun_induction stripHexMarks cs with
  | case1 rest ih => exact (ih.trans (List.suffix_cons _ _)).trans (List.suffix_cons _ _)
  | case2 => exact List.suffix_rfl

theorem shortDigits_cases (address : List Char) :
    (shortDigits address <:+ address ∨ shortDigits address = ['0']) ∧
      shortDigits ('0' :: 'x' :: shortDigits address) = shortDigits address := by
  generalize hdigits : (stripHexMarks address).dropWhile (· == '0') = digits
  have hshort : shortDigits address = if digits.isEmpty then ['0'] else digits := by
    rw [shortDigits, hdigits]
  cases digits with
  | nil =>
    rw [hshort]
    exact ⟨.inr rfl, rfl⟩
  | cons d ds =>
    have hd : d ≠ '0' := by
      have hhead := List.head?_dropWhile_not (· == '0') (stripHexMarks address)
      rw [hdigits] at hhead
      simpa using hhead
    have hsuffix : d :: ds <:+ address :=
      (hdigits ▸ List.dropWhile_suffix (· == '0')).trans (stripHexMarks_suffix address)
    have hmarks : stripHexMarks ('0' :: 'x' :: d :: ds) = d :: ds := by
      rw [stripHexMarks, stripHexMarks]
      exact fun _ heq => hd (List.cons.inj heq).1
    rw [hshort]
    exact ⟨.inl hsuffix, by simp [shortDigits, hmarks, hd]⟩

/-- What is kept of a path is a tag. -/
theorem isTag_normalizeTag (h : (splitPath cs).isSome = true) : IsTag (normalizeTag cs).toList := by
  obtain ⟨⟨address, rest⟩, hsplit⟩ :=
    Option.isSome_iff_exists.mp (isSome_splitPath_filter (p := fun c => !Text.isBlank c) rfl h)
  obtain ⟨hwhole, hcut⟩ := splitPath_of_suffix hsplit
  obtain ⟨hplace, hagain⟩ := shortDigits_cases address
  rw [normalizeTag_of_splitPath rfl hsplit, String.toList_ofList]
  have hkept : ∀ c ∈ address ++ ':' :: ':' :: rest, Text.isBlank c = false := by
    intro c hc
    rw [← hwhole, List.mem_filter] at hc
    simpa using hc.2
  have hdigits : splitPath (shortDigits address ++ ':' :: ':' :: rest) =
      some (shortDigits address, rest) := by
    rcases hplace with hsuffix | hzero
    · exact hcut _ hsuffix
    · rw [hzero]
      rfl
  have hagainSplit : splitPath ('0' :: 'x' :: shortDigits address ++ ':' :: ':' :: rest) =
      some ('0' :: 'x' :: shortDigits address, rest) := by
    rw [List.cons_append, List.cons_append, splitPath_cons (by decide), splitPath_cons (by decide),
      hdigits]
    rfl
  have hsolid : ∀ c ∈ '0' :: 'x' :: shortDigits address ++ ':' :: ':' :: rest,
      Text.isBlank c = false := by
    refine List.forall_mem_append.mpr ⟨?_, fun c hc => hkept c (List.mem_append_right _ hc)⟩
    refine List.forall_mem_cons.mpr ⟨rfl, List.forall_mem_cons.mpr ⟨rfl, fun c hc => ?_⟩⟩
    rcases hplace with hsuffix | hzero
    · exact hkept c (List.mem_append_left _ (hsuffix.subset hc))
    · rw [hzero, List.mem_singleton] at hc
      rw [hc]
      rfl
  refine ⟨⟨_, rfl⟩, hsolid, by rw [hagainSplit]; rfl, ?_⟩
  rw [normalizeTag_of_splitPath (List.filter_eq_self.mpr (by simpa using hsolid)) hagainSplit, hagain]

/-! ## Types that are read -/

theorem ofMoveChars_vector (fuel : Nat) (cs : List Char) :
    ofMoveChars (fuel + 1) ("vector<".toList ++ (cs ++ ['>'])) = vector (ofMoveChars fuel cs) := by
  have hmark : "vector<".toList = ['v', 'e', 'c', 't', 'o', 'r', '<'] := by decide
  have hname : "vector".toList = ['v', 'e', 'c', 't', 'o', 'r'] := by decide
  have href : "&mut ".toList = ['&', 'm', 'u', 't', ' '] := by decide
  have hfront : Text.isBlank 'v' = false := by decide
  have hopen : Text.isBlank '<' = false := by decide
  have hback : Text.isBlank '>' = false := by decide
  have htrim : Text.trimRight (Text.trimLeft ("vector<".toList ++ (cs ++ ['>']))) =
      "vector<".toList ++ (cs ++ ['>']) := by
    simp [hmark, Text.trimLeft, Text.trimRight, hfront, hback]
  have hstrip : stripReference ("vector<".toList ++ (cs ++ ['>'])) =
      "vector<".toList ++ (cs ++ ['>']) := by
    have hnone : "&mut ".toList.isPrefixOf? ("vector<".toList ++ (cs ++ ['>'])) = none := by
      rw [hmark, href]
      rfl
    unfold stripReference
    rw [hnone, hmark]
    rfl
  have helem : vectorElem? ("vector<".toList ++ (cs ++ ['>'])) = some cs := by
    have hlower : ['v', 'e', 'c', 't', 'o', 'r', '<'].map Char.toLower =
        ['v', 'e', 'c', 't', 'o', 'r', '<'] := by decide
    have hrest : ['v', 'e', 'c', 't', 'o', 'r'].isPrefixOf? (['v', 'e', 'c', 't', 'o', 'r', '<'] ++
        (cs ++ ['>']).map Char.toLower) = some ('<' :: (cs ++ ['>']).map Char.toLower) := rfl
    rw [List.map_append] at hrest
    simp only [vectorElem?, List.map_append, hmark, hlower, hname, hrest]
    simp [Text.trimLeft, hopen]
  simp only [ofMoveChars, htrim, hstrip, helem]

theorem ofMoveChars_plain (fuel : Nat)
    (h : vectorElem? (stripReference (Text.trimRight (Text.trimLeft cs))) = none) :
    ofMoveChars (fuel + 1) cs = ofMoveChars 1 cs := by
  simp only [ofMoveChars, h]

/-- The type is one that can be read: no number without a width and no tuple, and its tag is one that
is kept and does not name a type of texts. -/
def IsMove : DataType → Prop
  | scalar .number => False
  | object tag => ∃ cs, tag = some (String.ofList cs) ∧ IsTag cs ∧
    String.ofList cs ≠ stringTag ∧ String.ofList cs ≠ asciiStringTag
  | tuple _ => False
  | vector elem => elem.IsMove
  | _ => True

theorem isMove_ofPlain (cs : List Char) : (ofPlain cs).IsMove := by
  unfold ofPlain
  split
  · trivial
  · trivial
  · trivial
  · split
    · trivial
    · split
      case isTrue hsplit =>
        dsimp only
        split
        · trivial
        case isFalse htext =>
          rw [Bool.or_eq_true, not_or, beq_iff_eq, beq_iff_eq] at htext
          refine ⟨_, ?_, isTag_normalizeTag hsplit, ?_⟩ <;> rw [String.ofList_toList]
          exact htext
      case isFalse => split <;> trivial

theorem isMove_ofMove (spelling : String) : (ofMove spelling).IsMove := by
  have go (fuel : Nat) (cs : List Char) : (ofMoveChars fuel cs).IsMove := by
    induction fuel generalizing cs with
    | zero => trivial
    | succ fuel ih =>
      simp only [ofMoveChars]
      split
      · exact ih _
      · exact isMove_ofPlain _
  exact go _ _

theorem trim_of_solid (h : ∀ c ∈ cs, Text.isBlank c = false) :
    Text.trimRight (Text.trimLeft cs) = cs := by
  have := congrArg String.toList (Text.trim_eq_self (s := String.ofList cs) (by simpa using h))
  simpa [Text.trim] using this

theorem ofMoveChars_tag (fuel : Nat) (h : IsTag cs)
    (htext : String.ofList cs ≠ stringTag ∧ String.ofList cs ≠ asciiStringTag) :
    ofMoveChars (fuel + 1) cs = objectOf (String.ofList cs) := by
  obtain ⟨rest, hrest⟩ := h.front
  have hname : "vector".toList = ['v', 'e', 'c', 't', 'o', 'r'] := by decide
  have href : "&mut ".toList = ['&', 'm', 'u', 't', ' '] := by decide
  have hstrip : stripReference cs = cs := by
    rw [hrest, stripReference, href]
    · rfl
    · exact fun _ heq => absurd (List.cons.inj heq).1 (by decide)
  have helem : vectorElem? cs = none := by
    rw [hrest, vectorElem?, hname]
    rfl
  have hplain : ofPlain cs = objectOf (String.ofList cs) := by
    have hzero {name : String} (hlower : String.ofList (cs.map Char.toLower) = name) :
        name.toList.head? = some '0' := by
      rw [← hlower, String.toList_ofList, hrest]
      rfl
    have hwidth : widthOf? (cs.map Char.toLower) = none := by
      rw [hrest]
      rfl
    unfold ofPlain
    split
    · cases hzero ‹_›
    · cases hzero ‹_›
    · cases hzero ‹_›
    · simp [hwidth, h.splits, h.fixed, htext]
  simp only [ofMoveChars, trim_of_solid h.solid, hstrip, helem, hplain]

/-- A type that can be read is read from its spelling. Any fuel beyond the length will do. -/
theorem ofMoveChars_moveSpelling? : {type : DataType} → {spelling : String} → {fuel : Nat} →
    type.IsMove → type.moveSpelling? = some spelling → spelling.toList.length ≤ fuel →
    ofMoveChars (fuel + 1) spelling.toList = type
  | scalar .bool, _, fuel, _, h, _ | scalar .string, _, fuel, _, h, _
  | scalar .address, _, fuel, _, h, _ => by
    cases h
    exact (ofMoveChars_plain fuel (by decide +kernel)).trans (by decide +kernel)
  | integer width, _, fuel, _, h, _ => by
    cases h
    cases width <;> exact (ofMoveChars_plain fuel (by decide +kernel)).trans (by decide +kernel)
  | object _, _, fuel, ⟨cs, htag, hkept, htext⟩, h, _ => by
    cases htag
    cases h
    rw [String.toList_ofList, ofMoveChars_tag fuel hkept htext, objectOf]
  | vector elem, _, fuel, htype, h, hfuel => by
    obtain ⟨e, he, rfl⟩ := Option.map_eq_some_iff.mp h
    have hchars : ("vector<" ++ e ++ ">").toList = "vector<".toList ++ (e.toList ++ ['>']) := by
      simp
    have hmark : "vector<".toList.length = 7 := by decide
    rw [hchars, List.length_append, List.length_append, hmark] at hfuel
    obtain ⟨fuel, rfl⟩ : ∃ n, fuel = n + 1 := ⟨fuel - 1, by omega⟩
    have helem : ofMoveChars (fuel + 1) e.toList = elem :=
      ofMoveChars_moveSpelling? htype he (by omega)
    rw [hchars, ofMoveChars_vector, helem]

theorem ofMove_moveSpelling? {type : DataType} {spelling : String} (htype : type.IsMove)
    (h : type.moveSpelling? = some spelling) : ofMove spelling = type :=
  ofMoveChars_moveSpelling? htype h (Nat.le_refl _)

end TxGraph.DataType
