import TxGraph.Program.OfVariable
import TxGraph.Proofs.Lowering.Correspondence
import TxGraph.Proofs.Pure.Number

/-!
# Encoding what was decoded

Bytes that encode a literal are read back at the type that is recorded with them, as the data that
the literal is. A variable of that type and value then stands for a literal that is encoded into the
same bytes.
-/

namespace TxGraph

/-! ## Literals of operands -/

def Literal.NoBytes (value : Literal) : Prop :=
  value.Leaves fun l => ∀ bs, l ≠ .bytes bs

def Operand.NoBytes (value : Operand) : Prop :=
  value.Leaves fun l => ∀ bs, l ≠ .bytes bs

theorem Literal.NoBytes.ne_bytes {value : Literal} (h : value.NoBytes) (bs : Bytes) :
    value ≠ .bytes bs := by
  rintro rfl
  exact h bs rfl

def Operand.literal? : Operand → Option Literal
  | constant (.bool b) => some (.bool b)
  | constant (.string s) => some (.string s)
  | constant (.address s) => some (.address s)
  | constant (.number digits) => some (.number digits)
  | integer width digits => some (.integer width digits)
  | vector items => (all? items).map .list
  | _ => none
where
  all? : List Operand → Option (List Literal)
    | [] => some []
    | item :: rest => item.literal?.bind fun v => (all? rest).map (v :: ·)

theorem Operand.literal?_vector {items : List Operand} {value : Literal}
    (h : (Operand.vector items).literal? = some value) :
    ∃ vs, literal?.all? items = some vs ∧ value = .list vs := by
  obtain ⟨vs, hvs, rfl⟩ := Option.map_eq_some_iff.mp h
  exact ⟨vs, hvs, rfl⟩

theorem Operand.literal?_cons {item : Operand} {rest : List Operand} {vs : List Literal}
    (h : literal?.all? (item :: rest) = some vs) :
    ∃ v ws, item.literal? = some v ∧ literal?.all? rest = some ws ∧ vs = v :: ws := by
  obtain ⟨v, hv, hrest⟩ := Option.bind_eq_some_iff.mp h
  obtain ⟨ws, hws, rfl⟩ := Option.map_eq_some_iff.mp hrest
  exact ⟨v, ws, hv, hws, rfl⟩

/-- The operand and the literal it stands for do without the sender, and neither is given as
bytes. -/
structure Operand.Spells (value : Operand) (v : Literal) : Prop where
  withSender (address : String) : v.withSender address = v
  usesSender : value.usesSender = false
  noBytes : value.NoBytes
  literal : v.NoBytes

theorem Operand.spells_of_literal? : {value : Operand} → {v : Literal} →
    value.literal? = some v → value.Spells v
  | .constant k, _, h => by
    cases k <;> cases h <;>
      exact ⟨fun _ => rfl, rfl, fun _ => Literal.noConfusion, fun _ => Literal.noConfusion⟩
  | .integer _ _, _, h => by
    cases h
    exact ⟨fun _ => rfl, rfl, fun _ => Literal.noConfusion, fun _ => Literal.noConfusion⟩
  | .vector items, _, h => by
    obtain ⟨vs, hvs, rfl⟩ := literal?_vector h
    obtain ⟨hsender, huses, hitems, hliterals⟩ := go hvs
    exact ⟨fun address => congrArg Literal.list (hsender address), huses, hitems, hliterals⟩
  | .absent, _, h => by cases h
  | .ref _, _, h => by cases h
  | .object _, _, h => by cases h
where
  go : {items : List Operand} → {vs : List Literal} → literal?.all? items = some vs →
      (∀ address, Literal.withSender.withSenderAll address vs = vs) ∧
        usesSender.anyUsesSender items = false ∧
        Leaves.all (fun l => ∀ bs, l ≠ .bytes bs) items ∧
        Literal.Leaves.all (fun l => ∀ bs, l ≠ .bytes bs) vs
    | [], _, h => by cases h; exact ⟨fun _ => rfl, rfl, trivial, trivial⟩
    | _ :: _, _, h => by
      obtain ⟨v, ws, hv, hws, rfl⟩ := literal?_cons h
      have hfirst := spells_of_literal? hv
      obtain ⟨hsender, huses, hitems, hliterals⟩ := go hws
      refine ⟨fun address => congrArg₂ List.cons (hfirst.withSender address) (hsender address), ?_,
        ⟨hfirst.noBytes, hitems⟩, hfirst.literal, hliterals⟩
      rw [usesSender.anyUsesSender, hfirst.usesSender, huses]
      rfl

/-- The data that a literal is at a kind: numbers in decimal, addresses and ids in full. -/
def Literal.data? : ParamKind → Literal → Option Json
  | .bool, .bool b => some (.bool b)
  | .string, .string s => some (.str s)
  | .address, .address a => shownAddress a
  | .address, .string a => shownAddress a
  | .id, .address a => shownAddress a
  | .id, .string a => shownAddress a
  | .integer _, .number text => some (shownNumber text)
  | .integer _, .integer _ text => some (shownNumber text)
  | .vector elem, .list items => (items.mapM (data? elem)).map .arr
  | _, _ => none
where
  shownAddress (a : String) : Option Json :=
    (Address.parse? a).map fun raw => .str (Address.format raw)
  shownNumber (text : String) : Json :=
    .str (Text.digitsToNat (PureValue.numberDigits text)).repr

theorem Literal.data?_cons {elem : ParamKind} {first : Literal} {rest : List Literal} {data : Json}
    (h : (list (first :: rest)).data? (.vector elem) = some data) :
    ∃ head tail, first.data? elem = some head ∧ data = .arr (head :: tail) := by
  obtain ⟨datas, hdatas, rfl⟩ := Option.map_eq_some_iff.mp h
  rw [List.mapM_cons] at hdatas
  obtain ⟨head, hhead, hrest⟩ := Option.bind_eq_some_iff.mp hdatas
  obtain ⟨tail, -, htail⟩ := Option.bind_eq_some_iff.mp hrest
  cases htail
  exact ⟨head, tail, hhead, rfl⟩

namespace PureValue

variable {text : String} {bs : Bytes} {width : Width} {kind : ParamKind} {value : Literal}
  {data : Json}

/-! ## Writers of parts -/

theorem encodeLength_eq_ok {limit length : Nat} {mark : Bytes} :
    encodeLength limit length = .ok mark ↔ length ≤ limit ∧ mark = Leb128.encode length := by
  unfold encodeLength
  split <;> simp_all [eq_comm]

theorem encodeAddress_eq_ok : encodeAddress text = .ok bs ↔ Address.parse? text = some bs := by
  unfold encodeAddress
  split <;> simp_all

theorem encodeString_eq_ok {s : String} :
    encodeString s = .ok bs ↔ (Bytes.ofText s).length ≤ maxText ∧ bs = textBytes s := by
  constructor
  · intro h
    obtain ⟨mark, hmark, hbytes⟩ := bind_eq_ok.mp h
    obtain ⟨hlimit, rfl⟩ := encodeLength_eq_ok.mp hmark
    cases hbytes
    exact ⟨hlimit, rfl⟩
  · rintro ⟨hlimit, rfl⟩
    exact bind_eq_ok.mpr ⟨_, encodeLength_eq_ok.mpr ⟨hlimit, rfl⟩, rfl⟩

theorem numberDigits_repr (n : Nat) : numberDigits n.repr = n.repr.toList := by
  rw [numberDigits, Text.trim_repr]
  refine List.filter_eq_self.mpr fun c hc => ?_
  have := Text.isDigit_of_mem_repr hc
  rw [bne_iff_ne]
  rintro rfl
  revert this
  decide

/-- A number that is encoded has the bytes of its width, which hold its value. -/
theorem toNatLE_of_encodeNumber (h : encodeNumber width text = .ok bs) :
    bs.length = width.byteSize ∧ bs.toNatLE = Text.digitsToNat (numberDigits text) := by
  rw [encodeNumber_eq] at h
  split at h
  case isFalse => cases h
  case isTrue hdigits =>
    cases h
    exact ⟨Bytes.length_ofNatLE _ _, Bytes.toNatLE_ofNatLE (byteSize_pow width ▸ hdigits.2)⟩

theorem encodeNumber_repr (h : bs.length = width.byteSize) :
    encodeNumber width bs.toNatLE.repr = .ok bs := by
  have hbound : bs.toNatLE < Nat.pow 2 width.bits := by
    rw [← byteSize_pow, ← h]
    exact Bytes.toNatLE_lt bs
  rw [encodeNumber_eq, numberDigits_repr, Text.digitsToNat_repr,
    if_pos ⟨Text.isDigits_repr _, hbound⟩, ← h, Bytes.ofNatLE_toNatLE]

/-! ## From literals to bytes -/

theorem written_of_encodeAddress (h : encodeAddress text = .ok bs) :
    ∃ data, Literal.data?.shownAddress text = some data ∧ WrittenAddress data bs := by
  have hparse := encodeAddress_eq_ok.mp h
  refine ⟨.str (Address.format bs), ?_, Address.length_of_parse? hparse, rfl⟩
  rw [Literal.data?.shownAddress, hparse, Option.map_some]

theorem written_of_encodeNumber (h : encodeNumber width text = .ok bs) :
    Written .tight (.integer width) (Literal.data?.shownNumber text) bs := by
  obtain ⟨hlen, hnumber⟩ := toNatLE_of_encodeNumber h
  exact ⟨hlen, by rw [hnumber, Literal.data?.shownNumber]⟩

theorem written_of_encodeItems {elem : ParamKind}
    (helem : ∀ {value : Literal} {bs : Bytes}, value.NoBytes → encodeAs elem value = .ok bs →
      ∃ data, value.data? elem = some data ∧ Written .tight elem.dataType data bs)
    {items : List Literal} (hitems : Literal.Leaves.all (fun l => ∀ bs, l ≠ .bytes bs) items)
    (h : encodeAs.encodeItems elem items = .ok bs) :
    ∃ datas parts, items.mapM (Literal.data? elem) = some datas ∧ datas.length = items.length ∧
      List.Forall₂ (Written .tight elem.dataType) datas parts ∧ bs = parts.flatten := by
  induction items generalizing bs with
  | nil =>
    cases h
    exact ⟨[], [], rfl, rfl, .nil, rfl⟩
  | cons item rest ih =>
    obtain ⟨first, hfirst, htail⟩ := bind_eq_ok.mp h
    obtain ⟨more, hmore, hbytes⟩ := bind_eq_ok.mp htail
    cases hbytes
    obtain ⟨data, hdata, hwritten⟩ := helem hitems.1 hfirst
    obtain ⟨datas, parts, hdatas, hcount, hparts, rfl⟩ := ih hitems.2 hmore
    refine ⟨data :: datas, first :: parts, ?_, congrArg Nat.succ hcount, .cons hwritten hparts, rfl⟩
    rw [List.mapM_cons, hdata, hdatas]
    rfl

/-- **What is encoded at a kind is a tight form** of the data that the literal is. -/
theorem written_of_encodeAs (hvalue : value.NoBytes) (h : encodeAs kind value = .ok bs) :
    ∃ data, value.data? kind = some data ∧ Written .tight kind.dataType data bs := by
  induction kind generalizing value bs with
  | bool =>
    cases value with
    | bool b =>
      cases h
      exact ⟨_, rfl, b, rfl, rfl⟩
    | bytes bs => exact absurd rfl (hvalue bs)
    | _ => simp [encodeAs] at h
  | string =>
    cases value with
    | string s =>
      obtain ⟨hlimit, rfl⟩ := encodeString_eq_ok.mp h
      exact ⟨_, rfl, s, rfl, hlimit, rfl⟩
    | bytes bs => exact absurd rfl (hvalue bs)
    | _ => simp [encodeAs] at h
  | address =>
    cases value with
    | address a => exact written_of_encodeAddress (by simpa only [encodeAs] using h)
    | string a => exact written_of_encodeAddress (by simpa only [encodeAs] using h)
    | bytes bs => exact absurd rfl (hvalue bs)
    | _ => simp [encodeAs] at h
  | id =>
    have hid {a : String} (ha : encodeAddress a = .ok bs) :
        ∃ data, Literal.data?.shownAddress a = some data ∧
          Written .tight ParamKind.id.dataType data bs := by
      obtain ⟨data, hdata, hwritten⟩ := written_of_encodeAddress ha
      exact ⟨data, hdata, rfl, hwritten⟩
    cases value with
    | address a => exact hid (by simpa only [encodeAs] using h)
    | string a => exact hid (by simpa only [encodeAs] using h)
    | bytes bs => exact absurd rfl (hvalue bs)
    | _ => simp [encodeAs] at h
  | integer width =>
    cases value with
    | number text => exact ⟨_, rfl, written_of_encodeNumber (by simpa only [encodeAs] using h)⟩
    | integer _ text => exact ⟨_, rfl, written_of_encodeNumber (by simpa only [encodeAs] using h)⟩
    | bytes bs => exact absurd rfl (hvalue bs)
    | _ => simp [encodeAs] at h
  | vector elem ih =>
    cases value with
    | list items =>
      obtain ⟨mark, hmark, hrest⟩ := bind_eq_ok.mp h
      obtain ⟨body, hbody, hbytes⟩ := bind_eq_ok.mp hrest
      cases hbytes
      obtain ⟨hword, rfl⟩ := encodeLength_eq_ok.mp hmark
      obtain ⟨datas, parts, hdatas, hcount, hparts, rfl⟩ := written_of_encodeItems ih hvalue hbody
      refine ⟨.arr datas, by rw [Literal.data?, hdatas, Option.map_some], ?_⟩
      exact ⟨datas, _, parts, rfl, ⟨hcount ▸ hword, hcount ▸ rfl⟩, hparts, rfl⟩
    | bytes bs => exact absurd rfl (hvalue bs)
    | _ => simp [encodeAs] at h
  | handle =>
    cases value with
    | bytes bs => exact absurd rfl (hvalue bs)
    | _ => simp [encodeAs] at h
  | other =>
    cases value with
    | bytes bs => exact absurd rfl (hvalue bs)
    | _ => simp [encodeAs] at h

/-! ## From data to literals -/

/-- The kind of a type is inferred from its values: a vector goes by its first element, so an empty
one has none, and an id passes for an address. -/
def inferable : DataType → Json → Bool
  | .vector elem, .arr (first :: _) => inferable elem first
  | .vector _, _ => false
  | .object _, _ => false
  | _, _ => true

/-- The type that is recorded with a value is inferred from the value. -/
def showsType (type : Option String) (value : Json) : Bool :=
  type.all fun spelling => inferable (DataType.ofMove spelling) value

/-- A literal whose kind is inferred is data that show it. -/
theorem inferable_of_inferKind (hdata : value.data? kind = some data)
    (h : inferKind value = .ok kind) : inferable kind.dataType data = true := by
  induction kind generalizing value data with
  | vector elem ih =>
    cases value with
    | list items =>
      cases items with
      | nil => cases h
      | cons first rest =>
        obtain ⟨inner, hinner, hvector⟩ := bind_eq_ok.mp h
        cases hvector
        obtain ⟨head, tail, hhead, rfl⟩ := Literal.data?_cons hdata
        exact ih hhead hinner
    | _ => simp [Literal.data?] at hdata
  | id => cases value <;> simp [Literal.data?, inferKind] at hdata h
  | handle => cases value <;> simp [Literal.data?] at hdata
  | _ => rfl

/-- The literal that data at a kind stand for is encoded into their bytes. -/
structure Restores (kind : ParamKind) (data : Json) (bs : Bytes) (again : Literal) : Prop where
  literal : (Operand.ofValue kind.dataType data).literal? = some again
  encodes : encodeAs kind again = .ok bs
  infers : inferable kind.dataType data = true → inferKind again = .ok kind

structure RestoresAll (kind : ParamKind) (data : List Json) (bs : Bytes)
    (again : List Literal) : Prop where
  length : again.length = data.length
  literal : Operand.literal?.all? (data.map (Operand.ofValue kind.dataType)) = some again
  encodes : encodeAs.encodeItems kind again = .ok bs
  infers : inferable (.vector kind.dataType) (.arr data) = true →
    inferKind (.list again) = .ok (.vector kind)

theorem RestoresAll.nil (kind : ParamKind) : RestoresAll kind [] [] [] where
  length := rfl
  literal := rfl
  encodes := rfl
  infers h := by cases h

theorem RestoresAll.cons {rest : List Json} {more : Bytes} {again : Literal}
    {others : List Literal} (h : Restores kind data bs again)
    (hrest : RestoresAll kind rest more others) :
    RestoresAll kind (data :: rest) (bs ++ more) (again :: others) where
  length := by simp [hrest.length]
  literal := by
    rw [List.map_cons, Operand.literal?.all?, h.literal, Option.bind_some, hrest.literal,
      Option.map_some]
  encodes := by
    refine bind_eq_ok.mpr ⟨_, h.encodes, ?_⟩
    exact bind_eq_ok.mpr ⟨_, hrest.encodes, rfl⟩
  infers hfirst := bind_eq_ok.mpr ⟨_, h.infers hfirst, rfl⟩

theorem Restores.vector {elem : ParamKind} {data : List Json} {again : List Literal}
    (h : RestoresAll elem data bs again) (hword : data.length ≤ Word.max64) :
    Restores (.vector elem) (.arr data) (Leb128.encode data.length ++ bs) (.list again) := by
  rw [← h.length] at hword ⊢
  refine ⟨?_, ?_, h.infers⟩
  · rw [ParamKind.dataType, Operand.ofValue, Operand.literal?, h.literal, Option.map_some]
  · refine bind_eq_ok.mpr ⟨_, encodeLength_eq_ok.mpr ⟨hword, rfl⟩, ?_⟩
    exact bind_eq_ok.mpr ⟨_, h.encodes, rfl⟩

theorem restores_address (hlen : bs.length = 32) :
    Restores .address (.str (Address.format bs)) bs (.address (Address.format bs)) := by
  refine ⟨?_, ?_, fun _ => rfl⟩
  · rw [ParamKind.dataType, DataType.address, Operand.ofValue]
    · rw [Operand.trimmedText, Operand.textOf, Address.trim_format, Operand.literal?]
    · rintro ⟨⟩
  · rw [encodeAs, encodeAddress_eq_ok, Address.parse?_format hlen]

theorem restores_id (hlen : bs.length = 32) :
    Restores .id (.str (Address.format bs)) bs (.address (Address.format bs)) := by
  refine ⟨?_, ?_, fun h => by cases h⟩
  · simp [ParamKind.dataType, DataType.objectOf, Operand.ofValue, Operand.trimmedText,
      Operand.textOf, Address.trim_format, Operand.literal?]
  · rw [encodeAs, encodeAddress_eq_ok, Address.parse?_format hlen]

theorem restores_integer (hlen : bs.length = width.byteSize) :
    Restores (.integer width) (.str bs.toNatLE.repr) bs (.integer width bs.toNatLE.repr) := by
  refine ⟨?_, by rw [encodeAs, encodeNumber_repr hlen], fun _ => rfl⟩
  rw [ParamKind.dataType, Operand.ofValue]
  · rw [Operand.trimmedText, Operand.textOf, Text.trim_repr, Operand.literal?]
  · rintro ⟨⟩

/-- **The bytes of a tight form are encoded again** from the literal that its data stand for. -/
theorem restores_of_written (h : Written .tight kind.dataType data bs) :
    ∃ again, Restores kind data bs again := by
  induction kind generalizing data bs with
  | bool =>
    obtain ⟨b, rfl, rfl⟩ := h
    exact ⟨.bool b, rfl, rfl, fun _ => rfl⟩
  | string =>
    obtain ⟨s, rfl, hlimit, rfl⟩ := h
    exact ⟨.string s, rfl, encodeString_eq_ok.mpr ⟨hlimit, rfl⟩, fun _ => rfl⟩
  | address =>
    obtain ⟨hlen, rfl⟩ := h
    exact ⟨_, restores_address hlen⟩
  | id =>
    obtain ⟨-, hlen, rfl⟩ := h
    exact ⟨_, restores_id hlen⟩
  | integer width =>
    obtain ⟨hlen, rfl⟩ := h
    exact ⟨_, restores_integer hlen⟩
  | vector elem ih =>
    obtain ⟨datas, _, parts, rfl, ⟨hword, rfl⟩, hparts, rfl⟩ := h
    have hall : ∃ again, RestoresAll elem datas parts.flatten again := by
      clear hword
      induction hparts with
      | nil => exact ⟨[], .nil elem⟩
      | cons hpart _ ihrest =>
        obtain ⟨again, hfirst⟩ := ih hpart
        obtain ⟨others, hrest⟩ := ihrest
        exact ⟨again :: others, .cons hfirst hrest⟩
    obtain ⟨again, hagain⟩ := hall
    exact ⟨.list again, .vector hagain hword⟩
  | handle => cases h.1
  | other => exact h.elim

/-! ## Arguments -/

/-- The bytes and the recorded type are those of some literal, given to a parameter of the kind. -/
def Encodes (kind : ParamKind) (type : Option String) (bs : Bytes) : Prop :=
  ∃ value : Literal, value.NoBytes ∧ encode kind value = .ok ⟨type, bs⟩

theorem encode_eq_ok (hvalue : ∀ bs, value ≠ .bytes bs) {found : PureValue} :
    encode kind value = .ok found ↔ ∃ eff bs,
      effectiveKind kind value = .ok eff ∧ encodeAs eff value = .ok bs ∧
        found = ⟨eff.pureType?, bs⟩ := by
  have heq : encode kind value = (do
      let eff ← effectiveKind kind value
      let bs ← encodeAs eff value
      return ⟨eff.pureType?, bs⟩) := by
    cases value with
    | bytes bs => exact absurd rfl (hvalue bs)
    | _ => rfl
  rw [heq]
  constructor
  · intro h
    obtain ⟨eff, heff, h⟩ := bind_eq_ok.mp h
    obtain ⟨bs, hbs, h⟩ := bind_eq_ok.mp h
    cases h
    exact ⟨eff, bs, heff, hbs, rfl⟩
  · rintro ⟨eff, bs, heff, hbs, rfl⟩
    exact bind_eq_ok.mpr ⟨eff, heff, bind_eq_ok.mpr ⟨bs, hbs, rfl⟩⟩

theorem solid_of_inferKind : {value : Literal} → {kind : ParamKind} → value.NoBytes →
    inferKind value = .ok kind → kind.Solid
  | .bool _, _, _, h => by cases h; trivial
  | .string _, _, _, h => by cases h; trivial
  | .address _, _, _, h => by cases h; trivial
  | .sender, _, _, h => by cases h; trivial
  | .number _, _, _, h => by cases h; trivial
  | .integer _ _, _, _, h => by cases h; trivial
  | .list [], _, _, h => by cases h
  | .list (_ :: _), _, hvalue, h => by
    obtain ⟨elem, helem, h⟩ := bind_eq_ok.mp h
    cases h
    have hsolid : elem.Solid := solid_of_inferKind hvalue.1 helem
    exact hsolid
  | .bytes bs, _, hvalue, _ => absurd rfl (hvalue bs)

/-- How a pure argument of a kind is read back. The recorded type is that of the solid kind `eff` at
which the value was encoded. -/
structure Recodes (kind eff : ParamKind) (type : Option String) (bs : Bytes) (data : Json)
    (again : Literal) : Prop where
  solid : eff.Solid
  effective : kind = .other ∨ eff = kind
  recorded : type = eff.pureType?
  decodes {spelling : String} : type = some spelling → decode spelling bs = .ok data
  literal : (Operand.ofValue eff.dataType data).literal? = some again
  encodes : encode kind again = .ok ⟨type, bs⟩
  shows : kind = .other → inferable eff.dataType data = true
  infers : inferable eff.dataType data = true → encode .other again = .ok ⟨type, bs⟩

/-- **Pure arguments are read back.** Bytes with a recorded type decode into data, and the literal
that these data stand for is encoded as the same argument again. -/
theorem Encodes.recodes {type : Option String} (hkind : kind.Declared) (h : Encodes kind type bs) :
    ∃ eff data again, Recodes kind eff type bs data again := by
  obtain ⟨value, hvalue, h⟩ := h
  obtain ⟨eff, _, heff, hbytes, hfound⟩ := (encode_eq_ok hvalue.ne_bytes).mp h
  cases hfound
  obtain ⟨data, hdata, hwritten⟩ := written_of_encodeAs hvalue hbytes
  obtain ⟨again, hread⟩ := restores_of_written hwritten
  have hshows : inferKind value = .ok eff → inferable eff.dataType data = true :=
    inferable_of_inferKind hdata
  have hdecodes {spelling : String} (hspelling : eff.pureType? = some spelling) :
      decode spelling bs = .ok data :=
    decode_eq_ok_iff.mpr (ParamKind.ofMove_pureType hspelling ▸ hwritten.loose)
  have hencode {kind : ParamKind} (hagain : effectiveKind kind again = .ok eff) :
      encode kind again = .ok ⟨eff.pureType?, bs⟩ :=
    (encode_eq_ok (Operand.spells_of_literal? hread.literal).literal.ne_bytes).mpr
      ⟨eff, bs, hagain, hread.encodes, rfl⟩
  refine ⟨eff, data, again, ?_⟩
  by_cases hother : kind = .other
  · subst hother
    exact ⟨solid_of_inferKind hvalue heff, .inl rfl, rfl, hdecodes, hread.literal,
      hencode (hread.infers (hshows heff)), fun _ => hshows heff,
      fun hshows => hencode (hread.infers hshows)⟩
  · have hsame (v : Literal) : effectiveKind kind v = .ok kind := by
      cases kind <;> first | rfl | exact absurd rfl hother
    rw [hsame] at heff
    cases heff
    refine ⟨?_, .inr rfl, rfl, hdecodes, hread.literal, hencode (hsame again),
      fun heq => absurd heq hother, fun hshows => hencode (hread.infers hshows)⟩
    rcases hkind with rfl | rfl | hsolid
    · cases value with
      | bytes bs => exact absurd rfl (hvalue bs)
      | _ => simp [encodeAs] at hbytes
    · exact absurd rfl hother
    · exact hsolid

/-- An argument is that of a parameter without a declared type if its value shows its type. -/
theorem Encodes.other_iff {type : Option String} (hkind : kind.Declared) (h : Encodes kind type bs) :
    Encodes .other type bs ↔ showsType type (canonical type bs) = true := by
  have hshows {kind eff : ParamKind} {data : Json} {again : Literal}
      (hrecodes : Recodes kind eff type bs data again) :
      showsType type (canonical type bs) = inferable eff.dataType data := by
    obtain ⟨spelling, hspelling⟩ := ParamKind.pureType?_of_solid hrecodes.solid
    have htype : type = some spelling := hrecodes.recorded.trans hspelling
    simp only [showsType, canonical, htype, Option.all_some, Option.map_some, hrecodes.decodes htype,
      ParamKind.ofMove_pureType hspelling]
  constructor
  · intro hother
    obtain ⟨eff, data, again, hrecodes⟩ := hother.recodes (.inr (.inl rfl))
    rw [hshows hrecodes]
    exact hrecodes.shows rfl
  · intro hvalue
    obtain ⟨eff, data, again, hrecodes⟩ := h.recodes hkind
    rw [hshows hrecodes] at hvalue
    exact ⟨again, (Operand.spells_of_literal? hrecodes.literal).literal, hrecodes.infers hvalue⟩

end PureValue

end TxGraph
