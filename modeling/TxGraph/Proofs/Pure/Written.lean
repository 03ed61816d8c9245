import Mathlib.Data.List.Forall2
import TxGraph.Proofs.Address
import TxGraph.Proofs.Bytes.Decimal
import TxGraph.Proofs.Outcome

/-!
# The written form of values

What the bytes of a value of a type look like, said without a reader: `Written`. It leaves open how
the lengths of vectors are marked. Decoding accepts the bytes in which they are marked in any way
that is read as the length (`decode_eq_ok_iff`). If they are marked as an encoder marks them, the
bytes are tight. A value has one tight form (`Written.unique`), and only in its marks can another
form of it differ (`Written.tight`).
-/

namespace TxGraph

theorem Bytes.take?_eq_some {n : Nat} {bs front rest : Bytes} :
    bs.take? n = some (front, rest) ↔ bs = front ++ rest ∧ front.length = n := by
  unfold take?
  constructor
  · intro h
    split at h
    case isTrue hle =>
      cases h
      exact ⟨(List.take_append_drop n bs).symm, List.length_take_of_le hle⟩
    case isFalse => cases h
  · rintro ⟨rfl, rfl⟩
    simp

namespace PureValue

variable {n : Nat} {bs rest bs' : Bytes} {spelling : String} {value : Json}

/-! ## Readers of parts -/

theorem takePart_eq_ok {part : EncodedPart} {front : Bytes} :
    takePart n part bs = .ok (front, rest) ↔ bs = front ++ rest ∧ front.length = n := by
  rw [← Bytes.take?_eq_some, takePart]
  cases bs.take? n <;> simp

theorem decodeLength_eq_ok :
    decodeLength bs = .ok (n, rest) ↔
      ∃ mark, bs = mark ++ rest ∧ Leb128.decode mark = .ok (n, []) := by
  have hdecode : decodeLength bs = .ok (n, rest) ↔ Leb128.decode bs = .ok (n, rest) := by
    unfold decodeLength
    split <;> simp_all
  rw [hdecode]
  constructor
  · exact Leb128.exists_mark_of_decodeFrom
  · rintro ⟨mark, rfl, hmark⟩
    exact Leb128.decodeFrom_append hmark rest

theorem decodeBool_eq_ok :
    decodeBool spelling bs = .ok (value, rest) ↔
      ∃ b, value = .bool b ∧ bs = [if b then 1 else 0] ++ rest := by
  unfold decodeBool
  constructor
  · intro h
    obtain ⟨⟨raw, tail⟩, hraw, hbool⟩ := bind_eq_ok.mp h
    obtain ⟨rfl, -⟩ := takePart_eq_ok.mp hraw
    dsimp only at hbool
    split at hbool
    case isTrue hzero =>
      cases hbool
      exact ⟨false, rfl, by rw [hzero]; rfl⟩
    case isFalse =>
      split at hbool
      case isTrue hone =>
        cases hbool
        exact ⟨true, rfl, by rw [hone]; rfl⟩
      case isFalse => cases hbool
  · rintro ⟨b, rfl, rfl⟩
    refine bind_eq_ok.mpr ⟨_, takePart_eq_ok.mpr ⟨rfl, rfl⟩, ?_⟩
    cases b <;> rfl

theorem decodeAddress_eq_ok :
    decodeAddress bs = .ok (value, rest) ↔
      ∃ raw, bs = raw ++ rest ∧ raw.length = 32 ∧ value = .str (Address.format raw) := by
  unfold decodeAddress
  constructor
  · intro h
    obtain ⟨⟨raw, tail⟩, hraw, hshown⟩ := bind_eq_ok.mp h
    obtain ⟨rfl, hlen⟩ := takePart_eq_ok.mp hraw
    cases hshown
    exact ⟨raw, rfl, hlen, rfl⟩
  · rintro ⟨raw, rfl, hlen, rfl⟩
    exact bind_eq_ok.mpr ⟨_, takePart_eq_ok.mpr ⟨rfl, hlen⟩, rfl⟩

/-- The bytes of a text after the mark of their number. -/
def textBytes (s : String) : Bytes :=
  Leb128.encode (Bytes.ofText s).length ++ Bytes.ofText s

/-- The mark of a text is read only if it is the one that an encoder writes. -/
theorem decodeString_eq_ok :
    decodeString spelling bs = .ok (value, rest) ↔
      ∃ s, value = .str s ∧ (Bytes.ofText s).length ≤ maxText ∧ bs = textBytes s ++ rest := by
  have hfront (mark tail : Bytes) :
      (mark ++ tail).take ((mark ++ tail).length - tail.length) = mark := by
    rw [List.length_append, Nat.add_sub_cancel, List.take_left]
  unfold decodeString
  constructor
  · intro h
    obtain ⟨⟨n, after⟩, hlength, h⟩ := bind_eq_ok.mp h
    obtain ⟨⟨raw, tail⟩, hraw, h⟩ := bind_eq_ok.mp h
    obtain ⟨mark, rfl, hmark⟩ := decodeLength_eq_ok.mp hlength
    obtain ⟨rfl, hlen⟩ := takePart_eq_ok.mp hraw
    dsimp only at h
    rw [hfront] at h
    split at h
    case isTrue => cases h
    case isFalse hshort =>
      simp only [Bool.or_eq_true, decide_eq_true_eq, not_or, Nat.not_lt] at hshort
      split at h
      case isTrue => cases h
      case isFalse hminimal =>
        split at h
        case isTrue => cases h
        case isFalse hlimit =>
          split at h
          case h_2 => cases h
          case h_1 s htext =>
            cases h
            obtain rfl := Bytes.ofText_of_toText? htext
            have hnine : mark.length ≤ 9 := hshort.1.trans (by decide)
            have hencode : mark = Leb128.encode n :=
              Leb128.eq_encode_of_minimal hmark hnine (by simpa using hminimal)
            refine ⟨s, rfl, hlen ▸ Nat.le_of_not_lt hlimit, ?_⟩
            rw [textBytes, hencode, hlen, List.append_assoc]
  · rintro ⟨s, rfl, hlimit, rfl⟩
    have hword : (Bytes.ofText s).length ≤ Word.max64 := hlimit.trans (by decide)
    have hsmall : (Bytes.ofText s).length ≤ Word.max32 := hlimit.trans (by decide)
    have hshort : (Leb128.encode (Bytes.ofText s).length).length ≤ maxTextMark :=
      Leb128.length_encodeFuel_le (Nat.lt_of_le_of_lt hlimit (by decide))
    have hminimal : ¬ (1 < (Leb128.encode (Bytes.ofText s).length).length ∧
        (Leb128.encode (Bytes.ofText s).length).getLast? = some 0) :=
      fun ⟨hlong, hlast⟩ => Leb128.encode_minimal hlong hlast
    have hmark := Leb128.decode_encode hword []
    rw [List.append_nil] at hmark
    rw [textBytes, List.append_assoc]
    refine bind_eq_ok.mpr ⟨_, decodeLength_eq_ok.mpr ⟨_, rfl, hmark⟩, ?_⟩
    refine bind_eq_ok.mpr ⟨_, takePart_eq_ok.mpr ⟨rfl, rfl⟩, ?_⟩
    dsimp only
    rw [hfront, if_neg (by simpa using ⟨hshort, hsmall⟩), if_neg (by simpa using hminimal),
      if_neg (Nat.not_lt.mpr hlimit), Bytes.toText?_ofText]
    rfl

/-! ## The written form -/

/-- Which bytes may mark a number of elements. -/
abbrev Marking := Nat → Bytes → Prop

/-- Every mark that is read as the length. -/
def Marking.loose : Marking := fun n mark => Leb128.decode mark = .ok (n, [])

/-- The mark that an encoder writes. -/
def Marking.tight : Marking := fun n mark => n ≤ Word.max64 ∧ mark = Leb128.encode n

theorem Marking.loose_of_tight {mark : Bytes} (h : tight n mark) : loose n mark := by
  obtain ⟨hword, rfl⟩ := h
  rw [loose, ← Leb128.decode_encode hword [], List.append_nil]

theorem Marking.loose.ne_nil {mark : Bytes} (h : loose n mark) : mark ≠ [] := by
  rintro rfl
  cases h

/-- The 32 bytes of an address that is shown in full. -/
def WrittenAddress (value : Json) (bs : Bytes) : Prop :=
  bs.length = 32 ∧ value = .str (Address.format bs)

theorem WrittenAddress.unique (h : WrittenAddress value bs) (h' : WrittenAddress value bs') :
    bs = bs' := by
  obtain ⟨hlen, rfl⟩ := h
  obtain ⟨hlen', hsame⟩ := h'
  have hparse := Address.parse?_format hlen
  rw [Json.str.inj hsame, Address.parse?_format hlen'] at hparse
  exact (Option.some.inj hparse).symm

/-- The bytes are a value of a type. Types that are not listed have no values in bytes. -/
def Written (marking : Marking) : DataType → Json → Bytes → Prop
  | .scalar .bool, value, bs => ∃ b, value = .bool b ∧ bs = [if b then 1 else 0]
  | .scalar .address, value, bs => WrittenAddress value bs
  | .scalar .string, value, bs =>
    ∃ s, value = .str s ∧ (Bytes.ofText s).length ≤ maxText ∧ bs = textBytes s
  | .integer width, value, bs => bs.length = width.byteSize ∧ value = .str bs.toNatLE.repr
  | .object tag, value, bs => tag = some DataType.idTag ∧ WrittenAddress value bs
  | .vector elem, value, bs => ∃ values mark parts, value = .arr values ∧
    marking values.length mark ∧ List.Forall₂ (Written marking elem) values parts ∧
    bs = mark ++ parts.flatten
  | _, _, _ => False

namespace Written

theorem ne_nil : {type : DataType} → {value : Json} → {bs : Bytes} →
    Written .loose type value bs → bs ≠ []
  | .scalar .bool, _, _, ⟨_, _, hbs⟩ => by simp [hbs]
  | .scalar .address, _, _, ⟨hlen, _⟩ => by
    rintro rfl
    cases hlen
  | .scalar .string, _, _, ⟨s, _, _, hbs⟩ => by
    rw [hbs, textBytes]
    exact List.append_ne_nil_of_left_ne_nil (Leb128.encodeFuel_ne_nil _ _) _
  | .integer width, _, _, ⟨hlen, _⟩ => by
    rintro rfl
    cases width <;> cases hlen
  | .object _, _, _, ⟨_, hlen, _⟩ => by
    rintro rfl
    cases hlen
  | .vector _, _, _, ⟨_, mark, _, _, hmark, _, hbs⟩ => by
    rw [hbs]
    exact List.append_ne_nil_of_left_ne_nil hmark.ne_nil _

/-- Every element takes a byte. -/
theorem length_le {elem : DataType} {values : List Json} {parts : List Bytes}
    (h : List.Forall₂ (Written .loose elem) values parts) :
    values.length ≤ parts.flatten.length := by
  induction h with
  | nil => exact Nat.le_refl 0
  | cons hpart _ ih =>
    have := List.length_pos_iff.mpr hpart.ne_nil
    rw [List.flatten_cons, List.length_append, List.length_cons]
    omega

theorem loose : {type : DataType} → {value : Json} → {bs : Bytes} →
    Written .tight type value bs → Written .loose type value bs
  | .scalar .bool, _, _, h => h
  | .scalar .address, _, _, h => h
  | .scalar .string, _, _, h => h
  | .integer _, _, _, h => h
  | .object _, _, _, h => h
  | .vector _, _, _, ⟨values, mark, parts, hvalue, hmark, hparts, hbs⟩ =>
    ⟨values, mark, parts, hvalue, Marking.loose_of_tight hmark, hparts.imp fun _ _ => loose, hbs⟩

theorem tight : {type : DataType} → {value : Json} → {bs : Bytes} →
    Written .loose type value bs → ∃ bs', Written .tight type value bs'
  | .scalar .bool, _, bs, h => ⟨bs, h⟩
  | .scalar .address, _, bs, h => ⟨bs, h⟩
  | .scalar .string, _, bs, h => ⟨bs, h⟩
  | .integer _, _, bs, h => ⟨bs, h⟩
  | .object _, _, bs, h => ⟨bs, h⟩
  | .vector elem, _, _, ⟨values, mark, parts, hvalue, hmark, hparts, hbs⟩ => by
    have hall : ∃ parts', List.Forall₂ (Written .tight elem) values parts' := by
      clear hmark hvalue hbs
      induction hparts with
      | nil => exact ⟨[], .nil⟩
      | cons hpart _ ih =>
        obtain ⟨part', hpart'⟩ := tight hpart
        obtain ⟨parts', hparts'⟩ := ih
        exact ⟨part' :: parts', .cons hpart' hparts'⟩
    obtain ⟨parts', hparts'⟩ := hall
    exact ⟨_, values, _, parts', hvalue, ⟨Leb128.le_max64_of_decode hmark, rfl⟩, hparts', rfl⟩

/-- Only vectors have marks that can be written in more than one way. -/
theorem tight_of_not_vector : {type : DataType} → type.isVector = false → {value : Json} →
    {bs : Bytes} → Written .loose type value bs → Written .tight type value bs
  | .scalar .bool, _, _, _, h => h
  | .scalar .address, _, _, _, h => h
  | .scalar .string, _, _, _, h => h
  | .integer _, _, _, _, h => h
  | .object _, _, _, _, h => h

/-- **A value has one tight form.** -/
theorem unique : {type : DataType} → {value : Json} → {bs bs' : Bytes} →
    Written .tight type value bs → Written .tight type value bs' → bs = bs'
  | .scalar .bool, _, _, _, ⟨b, hvalue, hbs⟩, ⟨b', hvalue', hbs'⟩ => by
    obtain rfl : b = b' := Json.bool.inj (hvalue.symm.trans hvalue')
    rw [hbs, hbs']
  | .scalar .address, _, _, _, h, h' => WrittenAddress.unique h h'
  | .scalar .string, _, _, _, ⟨s, hvalue, _, hbs⟩, ⟨s', hvalue', _, hbs'⟩ => by
    obtain rfl : s = s' := Json.str.inj (hvalue.symm.trans hvalue')
    rw [hbs, hbs']
  | .integer _, _, bs, bs', ⟨hlen, hvalue⟩, ⟨hlen', hvalue'⟩ => by
    have hnumber : bs.toNatLE = bs'.toNatLE :=
      Text.repr_inj.mp (Json.str.inj (hvalue.symm.trans hvalue'))
    rw [← Bytes.ofNatLE_toNatLE bs, hnumber, hlen, ← hlen', Bytes.ofNatLE_toNatLE]
  | .object _, _, _, _, h, h' => WrittenAddress.unique h.2 h'.2
  | .vector elem, _, _, _, ⟨values, _, parts, hvalue, ⟨_, hmark⟩, hparts, hbs⟩,
      ⟨values', _, parts', hvalue', ⟨_, hmark'⟩, hparts', hbs'⟩ => by
    obtain rfl : values = values' := Json.arr.inj (hvalue.symm.trans hvalue')
    have helem : Relator.RightUnique (Written .tight elem) := fun _ _ _ => unique
    have hsame : parts = parts' := List.right_unique_forall₂' helem hparts hparts'
    rw [hbs, hbs', hmark, hmark', hsame]

end Written

/-! ## Reading -/

section

variable {read : Bytes → Except EncodeError (Json × Bytes)} {form : Json → Bytes → Prop}

theorem forms_of_decodeMany
    (hread : ∀ {bs rest : Bytes} {value : Json}, read bs = .ok (value, rest) →
      ∃ part, bs = part ++ rest ∧ form value part)
    {count : Nat} {bs rest : Bytes} {values : List Json}
    (h : decodeMany read count bs = .ok (values, rest)) :
    values.length = count ∧
      ∃ parts, List.Forall₂ form values parts ∧ bs = parts.flatten ++ rest := by
  induction count generalizing bs values with
  | zero =>
    cases h
    exact ⟨rfl, [], .nil, rfl⟩
  | succ count ih =>
    obtain ⟨⟨value, tail⟩, hvalue, htail⟩ := bind_eq_ok.mp h
    obtain ⟨⟨others, last⟩, hothers, hcons⟩ := bind_eq_ok.mp htail
    cases hcons
    obtain ⟨part, rfl, hpart⟩ := hread hvalue
    obtain ⟨hlength, parts, hparts, rfl⟩ := ih hothers
    refine ⟨congrArg Nat.succ hlength, part :: parts, .cons hpart hparts, ?_⟩
    rw [List.flatten_cons, List.append_assoc]

theorem decodeMany_of_forms {values : List Json} {parts : List Bytes}
    (h : List.Forall₂ form values parts)
    (hread : ∀ {value : Json}, ∀ part ∈ parts, form value part → ∀ rest,
      read (part ++ rest) = .ok (value, rest)) (rest : Bytes) :
    decodeMany read values.length (parts.flatten ++ rest) = .ok (values, rest) := by
  induction h with
  | nil => rfl
  | @cons value part values parts hpart _ ih =>
    rw [List.flatten_cons, List.append_assoc]
    refine bind_eq_ok.mpr ⟨_, hread part List.mem_cons_self hpart _, ?_⟩
    exact bind_eq_ok.mpr ⟨_, ih fun part hmem => hread part (List.mem_cons_of_mem _ hmem), rfl⟩

end

/-- What is read off the front of the bytes is written there. -/
theorem written_of_decodeValue {total : Nat} : (type : DataType) → {spelling : String} →
    {bs rest : Bytes} → {value : Json} →
    decodeValue total type spelling bs = .ok (value, rest) →
    ∃ front, bs = front ++ rest ∧ Written .loose type value front
  | .scalar .bool, _, _, _, _, h => by
    obtain ⟨b, rfl, rfl⟩ := decodeBool_eq_ok.mp h
    exact ⟨_, rfl, b, rfl, rfl⟩
  | .scalar .address, _, _, _, _, h => by
    obtain ⟨raw, rfl, hlen, rfl⟩ := decodeAddress_eq_ok.mp h
    exact ⟨raw, rfl, hlen, rfl⟩
  | .scalar .string, _, _, _, _, h => by
    obtain ⟨s, rfl, hlimit, rfl⟩ := decodeString_eq_ok.mp h
    exact ⟨_, rfl, s, rfl, hlimit, rfl⟩
  | .scalar .number, _, _, _, _, h => by cases h
  | .integer width, _, _, _, _, h => by
    obtain ⟨⟨raw, tail⟩, hraw, hshown⟩ := bind_eq_ok.mp h
    obtain ⟨rfl, hlen⟩ := takePart_eq_ok.mp hraw
    cases hshown
    exact ⟨raw, rfl, hlen, by rw [Bytes.toDecimal_eq]⟩
  | .object tag, _, _, _, _, h => by
    rw [decodeValue] at h
    split at h
    case isTrue htag =>
      obtain ⟨raw, rfl, hlen, rfl⟩ := decodeAddress_eq_ok.mp h
      exact ⟨raw, rfl, htag, hlen, rfl⟩
    case isFalse => cases h
  | .vector elem, _, _, _, _, h => by
    obtain ⟨⟨n, after⟩, hlength, hitems⟩ := bind_eq_ok.mp h
    dsimp only at hitems
    split at hitems
    case isTrue => cases hitems
    case isFalse =>
      obtain ⟨⟨values, tail⟩, hmany, harr⟩ := bind_eq_ok.mp hitems
      cases harr
      obtain ⟨mark, rfl, hmark⟩ := decodeLength_eq_ok.mp hlength
      obtain ⟨rfl, parts, hparts, rfl⟩ := forms_of_decodeMany (written_of_decodeValue elem) hmany
      refine ⟨mark ++ parts.flatten, by rw [List.append_assoc], ?_⟩
      exact ⟨values, mark, parts, rfl, hmark, hparts, rfl⟩
  | .tuple _, _, _, _, _, h => by cases h
  | .typeParam _, _, _, _, _, h => by cases h
  | .unknown, _, _, _, _, h => by cases h

/-- What is written at the front of the bytes is read, if the input is not longer than it may be. -/
theorem decodeValue_of_written {total : Nat} : (type : DataType) → (spelling : String) →
    {front : Bytes} → {value : Json} → Written .loose type value front → front.length ≤ total →
    (rest : Bytes) → decodeValue total type spelling (front ++ rest) = .ok (value, rest)
  | .scalar .bool, _, _, _, ⟨b, hvalue, hbs⟩, _, _ =>
    decodeBool_eq_ok.mpr ⟨b, hvalue, by rw [hbs]⟩
  | .scalar .address, _, front, _, ⟨hlen, hvalue⟩, _, _ =>
    decodeAddress_eq_ok.mpr ⟨front, rfl, hlen, hvalue⟩
  | .scalar .string, _, _, _, ⟨s, hvalue, hlimit, hbs⟩, _, _ =>
    decodeString_eq_ok.mpr ⟨s, hvalue, hlimit, by rw [hbs]⟩
  | .integer _, _, _, _, ⟨hlen, hvalue⟩, _, _ => by
    rw [hvalue, ← Bytes.toDecimal_eq]
    exact bind_eq_ok.mpr ⟨_, takePart_eq_ok.mpr ⟨rfl, hlen⟩, rfl⟩
  | .object _, _, front, _, ⟨htag, hlen, hvalue⟩, _, _ => by
    rw [decodeValue, if_pos htag]
    exact decodeAddress_eq_ok.mpr ⟨front, rfl, hlen, hvalue⟩
  | .vector elem, _, _, _, ⟨values, mark, parts, hvalue, hmark, hparts, hbs⟩, htotal, rest => by
    have hcount := Written.length_le hparts
    rw [hbs, List.length_append] at htotal
    rw [hbs, hvalue, List.append_assoc]
    refine bind_eq_ok.mpr ⟨_, decodeLength_eq_ok.mpr ⟨mark, rfl, hmark⟩, ?_⟩
    dsimp only
    rw [if_neg (by omega)]
    have hpart {value : Json} (part : Bytes) (hmem : part ∈ parts)
        (hwritten : Written .loose elem value part) (rest : Bytes) :
        decodeValue total elem (elem.moveSpelling?.getD "") (part ++ rest) = .ok (value, rest) := by
      have hle := (List.sublist_flatten_of_mem hmem).length_le
      exact decodeValue_of_written elem _ hwritten (by omega) rest
    exact bind_eq_ok.mpr ⟨_, decodeMany_of_forms hparts hpart rest, rfl⟩

/-- **Decoding accepts exactly the loose forms.** -/
theorem decode_eq_ok_iff :
    decode spelling bs = .ok value ↔ Written .loose (DataType.ofMove spelling) value bs := by
  unfold decode
  constructor
  · intro h
    obtain ⟨⟨found, rest⟩, hfound, hrest⟩ := bind_eq_ok.mp h
    obtain ⟨front, rfl, hwritten⟩ := written_of_decodeValue _ hfound
    dsimp only at hrest
    split at hrest
    case isTrue hempty =>
      cases hrest
      rwa [List.isEmpty_iff.mp hempty, List.append_nil]
    case isFalse => cases hrest
  · intro h
    have hread := decodeValue_of_written _ spelling h (Nat.le_refl _) []
    rw [List.append_nil] at hread
    exact bind_eq_ok.mpr ⟨_, hread, rfl⟩

def IsTight (spelling : String) (bs : Bytes) : Prop :=
  ∃ value, Written .tight (DataType.ofMove spelling) value bs

theorem isTight_iff (h : decode spelling bs = .ok value) :
    IsTight spelling bs ↔ Written .tight (DataType.ofMove spelling) value bs := by
  constructor
  · rintro ⟨found, hfound⟩
    rw [decode_eq_ok_iff.mpr hfound.loose] at h
    cases h
    exact hfound
  · exact fun hvalue => ⟨value, hvalue⟩

/-- What is decoded has a tight form. -/
theorem exists_isTight (h : decode spelling bs = .ok value) :
    ∃ form, IsTight spelling form ∧ decode spelling form = .ok value := by
  simp only [IsTight, decode_eq_ok_iff] at h ⊢
  generalize DataType.ofMove spelling = type at h ⊢
  obtain ⟨form, hform⟩ := h.tight
  exact ⟨form, ⟨value, hform⟩, hform.loose⟩

theorem isTight_of_not_vector (hvector : (DataType.ofMove spelling).isVector = false)
    (h : decode spelling bs = .ok value) : IsTight spelling bs := by
  simp only [IsTight, decode_eq_ok_iff] at h ⊢
  generalize DataType.ofMove spelling = type at hvector h ⊢
  exact ⟨value, h.tight_of_not_vector hvector⟩

/-- Bytes that are decoded into one value differ only if one of them is not tight. -/
theorem IsTight.eq (htight : IsTight spelling bs) (htight' : IsTight spelling bs')
    (h : decode spelling bs = .ok value) (h' : decode spelling bs' = .ok value) : bs = bs' :=
  Written.unique ((isTight_iff h).mp htight) ((isTight_iff h').mp htight')

end PureValue

end TxGraph
