import TxGraph.Proofs.Pure.Recode

/-!
# Encoding and decoding

What is encoded is decoded into the data that the literal is (`decode_of_encode`). The other way
there is one exception. Decoding reads the length of a vector off marks that are longer than they
need to be, so a vector has more forms than the tight one that encoding gives (`decode_forms`).
-/

namespace TxGraph.PureValue

/-! ## Literals -/

theorem effectiveKind_of_solid {kind : ParamKind} (h : kind.Solid) (value : Literal) :
    effectiveKind kind value = .ok kind := by
  cases kind with
  | other => cases h
  | _ => rfl

theorem effectiveKind_of_inferKind {value : Literal} {kind : ParamKind}
    (h : inferKind value = .ok kind) : effectiveKind .other value = effectiveKind kind value := by
  cases kind with
  | other => rfl
  | _ => exact h

/-- **Encoding, then decoding.** A literal that is encoded at a solid kind is recorded with the
spelling of the kind, and at this spelling its bytes are decoded into the data that it is. Without
a declared kind a literal is encoded at its own. -/
theorem decode_of_encode :
    (∀ (kind : ParamKind) (value : Literal) (found : PureValue), kind.Solid → value.NoBytes →
      encode kind value = .ok found →
      ∃ spelling data, kind.pureType? = some spelling ∧ found.type = some spelling ∧
        value.data? kind = some data ∧ decode spelling found.bytes = .ok data) ∧
    ∀ (value : Literal) (kind : ParamKind), inferKind value = .ok kind →
      encode .other value = encode kind value := by
  refine ⟨fun kind value found hkind hvalue h => ?_, fun value kind h => ?_⟩
  · obtain ⟨eff, bs, heff, hbytes, rfl⟩ := (encode_eq_ok hvalue.ne_bytes).mp h
    rw [effectiveKind_of_solid hkind] at heff
    cases heff
    obtain ⟨spelling, hspelling⟩ := ParamKind.pureType?_of_solid hkind
    obtain ⟨data, hdata, hwritten⟩ := written_of_encodeAs hvalue hbytes
    refine ⟨spelling, data, hspelling, hspelling, hdata, decode_eq_ok_iff.mpr ?_⟩
    rw [ParamKind.ofMove_pureType hspelling]
    exact hwritten.loose
  · cases value with
    | bytes bs =>
      cases h
      rfl
    | _ => simp only [encode, effectiveKind_of_inferKind h]

theorem decode_of_encode_digits :
    (encode (.vector (.integer .u16)) (.list [.number "1_000", .integer .u8 " 0042"]) =
      .ok ⟨some "vector<u16>", [2, 232, 3, 42, 0]⟩ ∧
    ∃ spelling data, (ParamKind.vector (.integer .u16)).pureType? = some spelling ∧
      some "vector<u16>" = some spelling ∧
      (Literal.list [.number "1_000", .integer .u8 " 0042"]).data? (.vector (.integer .u16)) =
        some data ∧
      decode spelling [2, 232, 3, 42, 0] = .ok data) ∧
    inferKind (.list [.address "0xA"]) = .ok (.vector .address) ∧
      encode .other (.list [.address "0xA"]) = encode (.vector .address) (.list [.address "0xA"]) :=
  ⟨⟨by decide +kernel, decode_of_encode.1 _ _ ⟨_, _⟩ trivial
      ⟨fun _ => Literal.noConfusion, fun _ => Literal.noConfusion, trivial⟩ (by decide +kernel)⟩,
    rfl, decode_of_encode.2 _ _ rfl⟩

/-! ## Bytes -/

/-- An empty vector is any mark of its length. -/
theorem decode_empty {spelling : String} {elem : DataType}
    (h : DataType.ofMove spelling = .vector elem) {mark : Bytes} (hmark : Marking.loose 0 mark) :
    decode spelling mark = .ok (.arr []) := by
  rw [decode_eq_ok_iff, h]
  exact ⟨[], mark, [], rfl, hmark, .nil, by simp⟩

/-- A tight form is encoded again from the value that it is decoded into. -/
theorem encodes_of_isTight {spelling : String} {form : Bytes} {value : Json}
    (hsolid : (ParamKind.ofType (DataType.ofMove spelling)).Solid) (hform : IsTight spelling form)
    (h : decode spelling form = .ok value) :
    ∃ again, (Operand.ofValue (DataType.ofMove spelling) value).literal? = some again ∧
      encodeAs (ParamKind.ofType (DataType.ofMove spelling)) again = .ok form := by
  have htype := ParamKind.dataType_ofType (DataType.isMove_ofMove spelling) hsolid
  rw [isTight_iff h] at hform
  generalize DataType.ofMove spelling = type at htype hform ⊢
  rw [← htype] at hform
  obtain ⟨again, hagain⟩ := restores_of_written hform
  exact ⟨again, htype ▸ hagain.literal, hagain.encodes⟩

/-- **Decoding, then encoding.** The bytes that are decoded into a value are its loose forms. One of
them is tight, and it is the one that the value is encoded into again. So decoding loses the form of
the bytes exactly if the type is a vector: there the lengths may be marked in other ways. -/
theorem decode_forms (spelling : String) :
    (∀ bs value, decode spelling bs = .ok value ↔
      Written .loose (DataType.ofMove spelling) value bs) ∧
    (∀ bs value, decode spelling bs = .ok value →
      ∃! form, IsTight spelling form ∧ decode spelling form = .ok value) ∧
    ((∀ bs bs' value, decode spelling bs = .ok value → decode spelling bs' = .ok value → bs = bs') ↔
      (DataType.ofMove spelling).isVector = false) ∧
    ∀ bs value, (ParamKind.ofType (DataType.ofMove spelling)).Solid →
      decode spelling bs = .ok value →
      ∃ again form, (Operand.ofValue (DataType.ofMove spelling) value).literal? = some again ∧
        encode (ParamKind.ofType (DataType.ofMove spelling)) again =
          .ok ⟨(ParamKind.ofType (DataType.ofMove spelling)).pureType?, form⟩ ∧
        decode spelling form = .ok value ∧ IsTight spelling form ∧
        (form = bs ↔ IsTight spelling bs) := by
  refine ⟨fun bs value => decode_eq_ok_iff, fun bs value h => ?_, ?_, fun bs value hsolid h => ?_⟩
  · obtain ⟨form, hform, hdecode⟩ := exists_isTight h
    exact ⟨form, ⟨hform, hdecode⟩, fun other hother => hother.1.eq hform hother.2 hdecode⟩
  · constructor
    · intro hinj
      cases htype : DataType.ofMove spelling with
      | vector elem =>
        have hsame := hinj [0] [128, 0] _ (decode_empty htype rfl) (decode_empty htype rfl)
        cases hsame
      | _ => rfl
    · intro hvector bs bs' value h h'
      exact (isTight_of_not_vector hvector h).eq (isTight_of_not_vector hvector h') h h'
  · obtain ⟨form, hform, hdecode⟩ := exists_isTight h
    obtain ⟨again, hliteral, hencodes⟩ := encodes_of_isTight hsolid hform hdecode
    refine ⟨again, form, hliteral, ?_, hdecode, hform, ?_⟩
    · exact (encode_eq_ok (Operand.spells_of_literal? hliteral).literal.ne_bytes).mpr
        ⟨_, form, effectiveKind_of_solid hsolid again, hencodes, rfl⟩
    · constructor
      · rintro rfl
        exact hform
      · exact fun hbs => hform.eq hbs hdecode h

theorem decode_forms_padded :
    decode "vector<vector<u8>>" [129, 0, 130, 128, 0, 7, 8] =
      .ok (.arr [.arr [.str "7", .str "8"]]) ∧
    ∃! form, IsTight "vector<vector<u8>>" form ∧
      decode "vector<vector<u8>>" form = .ok (.arr [.arr [.str "7", .str "8"]]) :=
  ⟨by decide +kernel, (decode_forms _).2.1 [129, 0, 130, 128, 0, 7, 8] _ (by decide +kernel)⟩

end TxGraph.PureValue
