import TxGraph.Proofs.Pure.Codec
import TxGraph.Proofs.Script.Value
import TxGraph.Proofs.Transaction.Builder

/-!
# Calls for pure values

A script makes a pure value by a call: of bytes as they are, or of a value at a type that it names.
`PureCall.read?` reads such calls, and `PureCall.Carries` says which bytes they put into the
transaction that the script builds. These are the bytes of the transaction that is built at once,
but for bytes that are given as they are with a type at which they are not the tight form of any
value (`literal_calls`): with a type, a call is never of bytes.
-/

namespace TxGraph

namespace ParamKind

variable {kind kind' : ParamKind}

/-- The solid kinds that are no vectors. -/
def base : List ParamKind :=
  [address, bool, id, string] ++ Width.all.map integer

theorem mem_base (h : kind.Solid) (hvector : ∀ elem, kind ≠ vector elem) : kind ∈ base := by
  cases kind with
  | integer width => cases width <;> decide
  | vector elem => exact absurd rfl (hvector elem)
  | handle => cases h
  | other => cases h
  | _ => decide

theorem toList_display_vector (elem : ParamKind) :
    (vector elem).display.toList = "vector<".toList ++ (elem.display.toList ++ ['>']) := by
  simp [display]

theorem display_inj_base (h : kind ∈ base) (h' : kind'.Solid) (heq : kind.display = kind'.display) :
    kind = kind' := by
  have table : ∀ k ∈ base, k.display.toList.head? ≠ some 'v' ∧
      ∀ k' ∈ base, k.display = k'.display → k = k' := by decide
  refine (table kind h).2 kind' (mem_base h' ?_) heq
  rintro elem rfl
  refine (table kind h).1 ?_
  rw [heq, toList_display_vector]
  rfl

theorem display_inj (h : kind.Solid) (h' : kind'.Solid) (heq : kind.display = kind'.display) :
    kind = kind' := by
  induction kind generalizing kind' with
  | vector elem ih =>
    by_cases hvector : ∃ elem', kind' = vector elem'
    · obtain ⟨elem', rfl⟩ := hvector
      have helem' : elem'.Solid := h'
      rw [← String.toList_inj, toList_display_vector, toList_display_vector,
        List.append_cancel_left_eq, List.append_cancel_right_eq, String.toList_inj] at heq
      rw [ih h helem' heq]
    · have hbase := mem_base h' fun elem' hk => hvector ⟨elem', hk⟩
      exact (display_inj_base hbase h heq.symm).symm
  | handle => cases h
  | other => cases h
  | _ => exact display_inj_base (mem_base h fun _ => ParamKind.noConfusion) h' heq

theorem typeName_dataType (h : kind.Solid) : Script.typeName kind.dataType = kind.display := by
  induction kind with
  | vector elem ih => rw [dataType, Script.typeName, ih h, display]
  | handle => cases h
  | other => cases h
  | _ => rfl

end ParamKind

/-- The recorded type is that of a kind, and the bytes are tight at this kind unless some of them
are given. -/
theorem PureValue.exists_kind_of_encode {kind : ParamKind} {value : Literal} {e : PureValue}
    (h : encode kind value = .ok e) : ∃ eff : ParamKind, e.type = eff.pureType? ∧
      (value.NoBytes → ∃ data, Written .tight eff.dataType data e.bytes) := by
  by_cases hbytes : ∃ bs, value = .bytes bs
  · obtain ⟨bs, rfl⟩ := hbytes
    cases h
    exact ⟨kind, rfl, fun hvalue => absurd rfl (hvalue bs)⟩
  · obtain ⟨eff, bs, -, hbs, rfl⟩ := (encode_eq_ok fun bs heq => hbytes ⟨bs, heq⟩).mp h
    refine ⟨eff, rfl, fun hvalue => ?_⟩
    obtain ⟨data, -, hwritten⟩ := written_of_encodeAs hvalue hbs
    exact ⟨data, hwritten⟩

namespace Script

inductive PureCall
  | raw (bytes : Bytes)
  | typed (name : String) (value : Value)

namespace PureCall

/-! ## Reading -/

/-- The last argument of a call, and what comes after the call. -/
def readLast? (cs : List Char) : Option (Value × List Char) :=
  match Value.read? cs with
  | some (v, ')' :: rest) => some (v, rest)
  | _ => none

def readNamed? (cs : List Char) : Option (String × Value × List Char) := do
  let (name, cs) ← Value.readText? '\x27' cs
  let cs ← ", ".toList.isPrefixOf? cs
  let (v, rest) ← readLast? cs
  return (name, v, rest)

def readBytes? (cs : List Char) : Option (Bytes × List Char) := do
  let (digits, cs) ← Value.readText? '\x27' cs
  let bytes ← Hex.decode? digits
  let rest ← "))".toList.isPrefixOf? cs
  return (bytes, rest)

/-- A call by the name of a type. Vectors take the name of their elements as an argument. -/
def readMember? (cs : List Char) : Option (PureCall × List Char) :=
  let name := cs.takeWhile Char.isAlphanum
  match cs.dropWhile Char.isAlphanum with
  | '(' :: args =>
    if name = "vector".toList then
      (readNamed? args).map fun (elem, v, rest) => (typed ("vector<" ++ elem ++ ">") v, rest)
    else (readLast? args).map fun (v, rest) => (typed (String.ofList name) v, rest)
  | _ => none

/-- A call at the front of the characters, and the characters after it. -/
def read? (cs : List Char) : Option (PureCall × List Char) :=
  match "tx.pure".toList.isPrefixOf? cs with
  | some ('.' :: cs) => readMember? cs
  | some ('(' :: cs) =>
    match "fromHex(".toList.isPrefixOf? cs with
    | some cs => (readBytes? cs).map fun (bytes, rest) => (raw bytes, rest)
    | none => (readNamed? cs).map fun (name, v, rest) => (typed name v, rest)
  | _ => none

/-! ## Meaning -/

/-- The bytes that a call puts into a transaction: those of the value at the kind with the name. -/
def Carries : PureCall → Bytes → Prop
  | raw found, bs => bs = found
  | typed name v, bs => ∃ kind data, kind.Solid ∧ kind.display = name ∧ v.data? kind = some data ∧
    PureValue.Written .tight kind.dataType data bs

theorem Carries.unique {call : PureCall} {bs bs' : Bytes} (h : call.Carries bs)
    (h' : call.Carries bs') : bs = bs' := by
  cases call with
  | raw found => exact h.trans h'.symm
  | typed name v =>
    obtain ⟨kind, data, hsolid, hname, hdata, hwritten⟩ := h
    obtain ⟨kind', data', hsolid', hname', hdata', hwritten'⟩ := h'
    obtain rfl := ParamKind.display_inj hsolid hsolid' (hname.trans hname'.symm)
    rw [hdata] at hdata'
    cases hdata'
    exact hwritten.unique hwritten'

/-! ## The text of calls -/

theorem isPrefixOf?_append (word : String) (cs : List Char) :
    word.toList.isPrefixOf? (word.toList ++ cs) = some cs :=
  List.isPrefixOf?_eq_some_iff_append_eq.mpr rfl

theorem readText?_singleQuoted (s : String) (rest : List Char) :
    Value.readText? '\x27' ((Text.singleQuoted s).toList ++ rest) = some (s, rest) := by
  simp [Value.readText?, Text.lex_singleQuoted, Text.ofUnits?_units]

theorem readNamed?_singleQuoted (name : String) (cs : List Char) :
    readNamed? ((Text.singleQuoted name).toList ++ (", ".toList ++ cs)) =
      (readLast? cs).map fun r => (name, r.1, r.2) := by
  simp only [readNamed?, readText?_singleQuoted, isPrefixOf?_append, Option.bind_eq_bind,
    Option.bind_some]
  cases readLast? cs <;> rfl

theorem toList_singleQuoted_hex (bs : Bytes) : (Text.singleQuoted (Hex.encode bs)).toList =
    '\x27' :: ((Hex.encode bs).toList ++ ['\x27']) := by
  have table : ∀ c ∈ "0123456789abcdef".toList, Text.singleQuoteChar c = [c] :=
    List.all_iff_forall_prop.mp (by decide)
  have hplain : ∀ c ∈ (Hex.encode bs).toList, Text.singleQuoteChar c = [c] := by
    intro c hc
    rw [Hex.encode, String.toList_ofList] at hc
    obtain ⟨b, -, hb⟩ := List.mem_flatMap.mp hc
    exact table c (Address.mem_hexDigits_of_mem_encodeByte hb)
  have hsame {cs : List Char} (h : ∀ c ∈ cs, Text.singleQuoteChar c = [c]) :
      cs.flatMap Text.singleQuoteChar = cs := by
    induction cs with
    | nil => rfl
    | cons c cs ih =>
      obtain ⟨hc, hcs⟩ := List.forall_mem_cons.mp h
      rw [List.flatMap_cons, hc, ih hcs, List.singleton_append]
  rw [Text.toList_singleQuoted, hsame hplain]

theorem read?_raw (bytes : Bytes) (rest : List Char) :
    read? ((Expr.raw bytes).text.toList ++ rest) = some (raw bytes, rest) := by
  have hfront : "tx.pure(fromHex('".toList =
      "tx.pure".toList ++ '(' :: ("fromHex(".toList ++ ['\x27']) := by decide
  have hback : "'))".toList = '\x27' :: "))".toList := by decide
  have hraw : (Expr.raw bytes).text = "tx.pure(fromHex('" ++ Hex.encode bytes ++ "'))" := rfl
  have htext : (Expr.raw bytes).text.toList ++ rest = "tx.pure".toList ++ '(' ::
      ("fromHex(".toList ++
        ((Text.singleQuoted (Hex.encode bytes)).toList ++ ("))".toList ++ rest))) := by
    rw [hraw, String.toList_append, String.toList_append, toList_singleQuoted_hex, hfront, hback]
    simp only [List.append_assoc, List.cons_append, List.nil_append]
  have hbytes : Hex.decode? (Hex.encode bytes) = some bytes := by
    rw [Hex.decode?, Hex.encode, String.toList_ofList, Hex.decodeChars_encode]
  simp only [htext, read?, isPrefixOf?_append, readBytes?, readText?_singleQuoted, hbytes,
    Option.bind_eq_bind, Option.bind_some, Option.pure_def, Option.map_some]

theorem readMember?_name {name : String} (hname : ∀ c ∈ name.toList, c.isAlphanum = true)
    (args : List Char) : readMember? (name.toList ++ '(' :: args) =
      if name = "vector" then
        (readNamed? args).map fun (elem, v, rest) => (typed ("vector<" ++ elem ++ ">") v, rest)
      else (readLast? args).map fun (v, rest) => (typed name v, rest) := by
  have htake : (name.toList ++ '(' :: args).takeWhile Char.isAlphanum = name.toList := by
    rw [List.takeWhile_append_of_pos hname, List.takeWhile_cons_of_neg (by decide),
      List.append_nil]
  have hdrop : (name.toList ++ '(' :: args).dropWhile Char.isAlphanum = '(' :: args := by
    rw [List.dropWhile_append_of_pos hname, List.dropWhile_cons_of_neg (by decide)]
  simp only [readMember?, htake, hdrop, String.toList_inj, String.ofList_toList]

section

variable (arg : String) (rest : List Char)

theorem toList_quotedCall (front name : String) :
    (front ++ Text.singleQuoted name ++ ", " ++ arg ++ ")").toList ++ rest =
      front.toList ++
        ((Text.singleQuoted name).toList ++ (", ".toList ++ (arg.toList ++ ')' :: rest))) := by
  simp only [String.toList_append, List.append_assoc]
  rfl

theorem read?_named (name : String) :
    read? (("tx.pure(" ++ Text.singleQuoted name ++ ", " ++ arg ++ ")").toList ++ rest) =
      (readLast? (arg.toList ++ ')' :: rest)).map fun r => (typed name r.1, r.2) := by
  have hfront : "tx.pure(".toList = "tx.pure".toList ++ ['('] := by decide
  -- a quote is not the beginning of another call
  have hquote : "fromHex(".toList.isPrefixOf?
      ((Text.singleQuoted name).toList ++ (", ".toList ++ (arg.toList ++ ')' :: rest))) = none := by
    rw [Text.toList_singleQuoted]
    rfl
  simp only [toList_quotedCall, hfront, List.append_assoc, List.singleton_append, read?,
    isPrefixOf?_append, hquote, readNamed?_singleQuoted, Option.map_map, Function.comp_def]

theorem read?_vector (elem : String) :
    read? (("tx.pure.vector(" ++ Text.singleQuoted elem ++ ", " ++ arg ++ ")").toList ++ rest) =
      (readLast? (arg.toList ++ ')' :: rest)).map fun r =>
        (typed ("vector<" ++ elem ++ ">") r.1, r.2) := by
  have hfront : "tx.pure.vector(".toList =
      "tx.pure".toList ++ '.' :: ("vector".toList ++ ['(']) := by decide
  have hname : ∀ c ∈ "vector".toList, c.isAlphanum = true := List.all_eq_true.mp (by decide)
  simp only [toList_quotedCall, hfront, List.append_assoc, List.cons_append, List.nil_append, read?,
    isPrefixOf?_append, readMember?_name hname, if_true, readNamed?_singleQuoted, Option.map_map,
    Function.comp_def]

theorem read?_member {name : String} (hname : ∀ c ∈ name.toList, c.isAlphanum = true)
    (hvector : name ≠ "vector") :
    read? (("tx.pure." ++ name ++ "(" ++ arg ++ ")").toList ++ rest) =
      (readLast? (arg.toList ++ ')' :: rest)).map fun r => (typed name r.1, r.2) := by
  have hfront : "tx.pure.".toList = "tx.pure".toList ++ ['.'] := by decide
  have htext : ("tx.pure." ++ name ++ "(" ++ arg ++ ")").toList ++ rest =
      "tx.pure".toList ++ '.' :: (name.toList ++ '(' :: (arg.toList ++ ')' :: rest)) := by
    simp only [String.toList_append, hfront, List.append_assoc, List.cons_append, List.nil_append]
    rfl
  simp only [htext, read?, isPrefixOf?_append, readMember?_name hname, if_neg hvector]

end

/-- What stands for a value at a solid kind is read as a call by the name of the kind. -/
theorem read?_pureText {kind : ParamKind} {spelling : String}
    (h : kind.pureType? = some spelling) (value : Json) (rest : List Char) :
    read? ((pureText spelling value).toList ++ rest) =
      (readLast? ((valueText kind.dataType value).toList ++ ')' :: rest)).map fun r =>
        (typed kind.display r.1, r.2) := by
  have hsolid := ParamKind.solid_of_pureType? h
  have hbase : ∀ k ∈ ParamKind.base, k.display.toList.all Char.isAlphanum = true ∧
      k.display ≠ "vector" := by decide
  have hname := ParamKind.typeName_dataType hsolid
  rw [pureText, ParamKind.ofMove_pureType h]
  cases kind with
  | vector elem =>
    cases elem with
    | vector inner =>
      rw [← hname]
      exact read?_named _ _ _
    | handle => cases hsolid
    | other => cases hsolid
    | _ => exact read?_vector _ _ _
  | handle => cases hsolid
  | other => cases hsolid
  | _ =>
    have hmem := ParamKind.mem_base hsolid fun _ => ParamKind.noConfusion
    exact read?_member _ _ (List.all_eq_true.mp (hbase _ hmem).1) (hbase _ hmem).2

/-- The text of decoded data is the argument of a call that is these data. -/
theorem readLast?_valueText {kind : ParamKind} {data : Json} {bs : Bytes}
    (h : PureValue.Written .loose kind.dataType data bs) :
    ∃ v, v.data? kind = some data ∧ ∀ rest,
      readLast? ((valueText kind.dataType data).toList ++ ')' :: rest) = some (v, rest) := by
  obtain ⟨v, hread, hdata⟩ := Value.readsAs_valueText h
  refine ⟨v, hdata, fun rest => ?_⟩
  have hlength : (valueText kind.dataType data).toList.length <
      ((valueText kind.dataType data).toList ++ ')' :: rest).length + 1 := by
    rw [List.length_append]
    omega
  simp only [readLast?, Value.read?, hread _ ')' rest hlength rfl]

/-! ## Calls of encoded values -/

/-- The call is made from an encoded value: of its bytes as they are, or of what they are decoded
into at the recorded type. -/
inductive MadeFrom (e : PureValue) : PureCall → Prop
  | raw : MadeFrom e (raw e.bytes)
  | typed {kind : ParamKind} {spelling : String} {data : Json} {v : Value}
    (hkind : kind.pureType? = some spelling) (htype : e.type = some spelling)
    (hdecode : PureValue.decode spelling e.bytes = .ok data) (hdata : v.data? kind = some data) :
    MadeFrom e (typed kind.display v)

end PureCall

def Expr.ofPure (e : PureValue) : Expr :=
  e.type.elim (.raw e.bytes) fun spelling => .pure spelling (PureValue.canonical e.type e.bytes)

theorem Writer.literal_eq {kind : ParamKind} {value : Literal} {e : PureValue}
    (hvalue : value ≠ .sender) (h : PureValue.encode kind value = .ok e) (symbol : Option String)
    (w : Writer) : w.literal kind value symbol =
      .ok (⟨(w.hoist symbol (.ofPure e)).1, .pure e.type (PureValue.canonical e.type e.bytes)⟩,
        (w.hoist symbol (.ofPure e)).2) := by
  rw [Writer.literal, if_neg hvalue, h]
  rfl

namespace PureCall

theorem read?_untyped {e : PureValue} (h : e.type = none) (rest : List Char) :
    read? ((Expr.ofPure e).text.toList ++ rest) = some (raw e.bytes, rest) := by
  have hraw : Expr.ofPure e = .raw e.bytes := by rw [Expr.ofPure, h, Option.elim_none]
  rw [hraw, read?_raw]

section

variable {e : PureValue} {kind : ParamKind} {spelling : String}
  (hkind : kind.pureType? = some spelling) (htype : e.type = some spelling)

include htype

theorem text_ofPure :
    (Expr.ofPure e).text = pureText spelling (PureValue.canonical e.type e.bytes) := by
  rw [Expr.ofPure, htype, Option.elim_some]
  rfl

include hkind

/-- With a recorded type there is no other call than one by its name. -/
theorem eq_typed_of_read? {call : PureCall} {cs rest : List Char}
    (h : read? ((Expr.ofPure e).text.toList ++ cs) = some (call, rest)) :
    ∃ v, call = typed kind.display v := by
  rw [text_ofPure htype, read?_pureText hkind] at h
  obtain ⟨r, -, heq⟩ := Option.map_eq_some_iff.mp h
  cases heq
  exact ⟨r.1, rfl⟩

/-- Bytes that decode are written as a call of what they are decoded into. -/
theorem read?_decoded {data : Json} (h : PureValue.decode spelling e.bytes = .ok data) :
    ∃ v, v.data? kind = some data ∧
      ∀ rest, read? ((Expr.ofPure e).text.toList ++ rest) = some (typed kind.display v, rest) := by
  have hwritten := PureValue.decode_eq_ok_iff.mp h
  rw [ParamKind.ofMove_pureType hkind] at hwritten
  obtain ⟨v, hdata, hread⟩ := readLast?_valueText hwritten
  have hcanonical : PureValue.canonical e.type e.bytes = data := by
    simp only [PureValue.canonical, htype, Option.map_some, h]
  refine ⟨v, hdata, fun rest => ?_⟩
  rw [text_ofPure htype, hcanonical, read?_pureText hkind, hread, Option.map_some]

theorem madeFrom_iff (rest : List Char) :
    (∃ call, read? ((Expr.ofPure e).text.toList ++ rest) = some (call, rest) ∧ MadeFrom e call) ↔
      ∃ data, PureValue.decode spelling e.bytes = .ok data := by
  constructor
  · rintro ⟨call, hread, hmade⟩
    obtain ⟨v, hcall⟩ := eq_typed_of_read? hkind htype hread
    cases hmade with
    | raw => cases hcall
    | typed _ htype' hdecode _ =>
      rw [htype] at htype'
      cases htype'
      exact ⟨_, hdecode⟩
  · rintro ⟨data, hdecode⟩
    obtain ⟨v, hdata, hread⟩ := read?_decoded hkind htype hdecode
    exact ⟨_, hread rest, .typed hkind htype hdecode hdata⟩

/-- The call carries the bytes if they are tight: whatever it carries is the tight form of a value
of the type that it names. -/
theorem carries_iff (rest : List Char) :
    (∃ call, read? ((Expr.ofPure e).text.toList ++ rest) = some (call, rest) ∧
      ∀ bs, call.Carries bs ↔ bs = e.bytes) ↔ PureValue.IsTight spelling e.bytes := by
  have hsolid := ParamKind.solid_of_pureType? hkind
  constructor
  · rintro ⟨call, hread, hcarries⟩
    obtain ⟨v, rfl⟩ := eq_typed_of_read? hkind htype hread
    obtain ⟨kind', data, hsolid', hname, -, hwritten⟩ := (hcarries e.bytes).mpr rfl
    obtain rfl := ParamKind.display_inj hsolid' hsolid hname
    refine ⟨data, ?_⟩
    rwa [ParamKind.ofMove_pureType hkind]
  · rintro ⟨data, hwritten⟩
    obtain ⟨v, hdata, hread⟩ :=
      read?_decoded hkind htype (PureValue.decode_eq_ok_iff.mpr hwritten.loose)
    rw [ParamKind.ofMove_pureType hkind] at hwritten
    have hcarries : (typed kind.display v).Carries e.bytes :=
      ⟨kind, data, hsolid, rfl, hdata, hwritten⟩
    refine ⟨_, hread rest, fun bs => ⟨fun hbs => hbs.unique hcarries, ?_⟩⟩
    rintro rfl
    exact hcarries

end

end PureCall

/-- **Calls carry the bytes of the transaction.** The writer writes an encoded literal as one call,
and the builder makes one input of the bytes. The call is of the bytes as they are or of what they
are decoded into exactly if they decode at the recorded type, where there is one. If they do not,
it is a call at the type of their hexadecimal digits. It carries just the bytes exactly if they are
the tight form of a value. Only the bytes of literals that are given as bytes need not be. -/
theorem literal_calls {kind : ParamKind} {value : Literal} {e : PureValue}
    (hvalue : value ≠ .sender) (h : PureValue.encode kind value = .ok e) (symbol : Option String) :
    (∀ w : Writer, Writer.target.pure kind value symbol w =
      .ok (⟨(w.hoist symbol (.ofPure e)).1, .pure e.type (PureValue.canonical e.type e.bytes)⟩,
        (w.hoist symbol (.ofPure e)).2)) ∧
    (∀ b : Transaction.Builder, b.inputs.size < Limited.limit →
      Transaction.Builder.target.pure kind value symbol b =
        .ok (.input (UInt16.ofNat b.inputs.size), b.addInput (.pure e.type e.bytes))) ∧
    (∀ rest, (∃ call, PureCall.read? ((Expr.ofPure e).text.toList ++ rest) = some (call, rest) ∧
        call.MadeFrom e) ↔
      ∀ spelling, e.type = some spelling → ∃ data, PureValue.decode spelling e.bytes = .ok data) ∧
    (∀ spelling, e.type = some spelling →
      (∀ data, PureValue.decode spelling e.bytes ≠ .ok data) →
      (Expr.ofPure e).text = pureText spelling (.str ("0x" ++ Hex.encode e.bytes))) ∧
    (∀ rest, (∃ call, PureCall.read? ((Expr.ofPure e).text.toList ++ rest) = some (call, rest) ∧
        ∀ bs, call.Carries bs ↔ bs = e.bytes) ↔
      ∀ spelling, e.type = some spelling → PureValue.IsTight spelling e.bytes) ∧
    (value.NoBytes → ∀ spelling, e.type = some spelling → PureValue.IsTight spelling e.bytes) := by
  obtain ⟨eff, heff, htight⟩ := PureValue.exists_kind_of_encode h
  refine ⟨Writer.literal_eq hvalue h symbol, fun b hroom => ?_, fun rest => ?_, ?_,
    fun rest => ?_, ?_⟩
  · have hliteral := Transaction.Builder.asTarget_literal kind value b
    rw [h] at hliteral
    exact hliteral.trans ((Transaction.Builder.asTarget_pushInput _ b).trans (if_pos hroom))
  · cases htype : e.type with
    | none => simpa using ⟨_, PureCall.read?_untyped htype rest, .raw⟩
    | some spelling => simpa using PureCall.madeFrom_iff (heff ▸ htype) htype rest
  · intro spelling htype hdecode
    have hcanonical : PureValue.canonical e.type e.bytes = .str ("0x" ++ Hex.encode e.bytes) := by
      cases hresult : PureValue.decode spelling e.bytes with
      | ok data => exact absurd hresult (hdecode data)
      | error cause => simp only [PureValue.canonical, htype, Option.map_some, hresult]
    rw [PureCall.text_ofPure htype, hcanonical]
  · cases htype : e.type with
    | none => simpa using ⟨_, PureCall.read?_untyped htype rest, fun bs => Iff.rfl⟩
    | some spelling => simpa using PureCall.carries_iff (heff ▸ htype) htype rest
  · intro hbytes spelling htype
    obtain ⟨data, hwritten⟩ := htight hbytes
    refine ⟨data, ?_⟩
    rwa [ParamKind.ofMove_pureType (heff ▸ htype)]

/-- Two bytes that are given for a number of eight are written as a call for another number. -/
theorem literal_calls_shortBytes :
    PureValue.encode (.integer .u64) (.bytes [1, 2]) = .ok ⟨some "u64", [1, 2]⟩ ∧
    (Expr.ofPure ⟨some "u64", [1, 2]⟩).text = "tx.pure.u64(0x0102n)" ∧
    PureCall.read? "tx.pure.u64(0x0102n);".toList = some (.typed "u64" (.bigInteger 258), [';']) ∧
    (PureCall.typed "u64" (.bigInteger 258)).Carries [2, 1, 0, 0, 0, 0, 0, 0] ∧
    ¬ ∃ call, PureCall.read? ((Expr.ofPure ⟨some "u64", [1, 2]⟩).text.toList ++ [';']) =
      some (call, [';']) ∧ call.MadeFrom ⟨some "u64", [1, 2]⟩ := by
  have hencode : PureValue.encode (.integer .u64) (.bytes [1, 2]) = .ok ⟨some "u64", [1, 2]⟩ := rfl
  have hdecode (data : Json) : PureValue.decode "u64" [1, 2] ≠ .ok data := by
    have herror : PureValue.decode "u64" [1, 2] = .error (.truncated (.integer .u64)) := by
      decide +kernel
    rw [herror]
    nofun
  obtain ⟨-, -, hmade, htext, -⟩ := literal_calls (fun heq => by cases heq) hencode none
  refine ⟨hencode, (htext _ rfl hdecode).trans (by decide +kernel), ?_, ?_, ?_⟩
  · rfl
  · exact ⟨.integer .u64, .str "258", trivial, rfl, rfl, rfl, by decide⟩
  · rw [hmade]
    intro hdecodes
    obtain ⟨data, hdata⟩ := hdecodes _ rfl
    exact hdecode data hdata

end Script

end TxGraph
