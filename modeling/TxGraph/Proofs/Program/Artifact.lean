import TxGraph.Program.Artifact
import TxGraph.Proofs.Bytes.Varint

/-!
# Artifacts are a prefix code

A reader that `Reads` a value takes exactly the bytes of the value off the front, and refuses every
part of them that lacks an end. This carries over from two readers to the one after the other, so it
is shown once for each reader and holds for programs. Fuel is never short: an alternative costs a
unit of it and a byte.
-/

namespace TxGraph.Artifact

/-! ## Readers one after the other -/

/-- With fuel for the bytes, and no more of them than a machine can hold, the bytes read as the
value whatever comes after, and no shorter part of them is read. -/
structure Reads {α : Type} (fuel : Nat) (read : Reader α) (bs : Bytes) (a : α) : Prop where
  whole : bs.length ≤ maxText → bs.length ≤ fuel → ∀ rest, read (bs ++ rest) = .ok (a, rest)
  cut : bs.length ≤ maxText → ∀ c, c <+: bs → c ≠ bs → c.length < fuel →
    read c = .error .malformed

section Combinators

variable {α β : Type} {fuel : Nat} {read : Reader α} {bs : Bytes} {a : α}
variable {next : α → Reader β} {b : β}

theorem Reads.mono {more : Nat} (h : Reads more read bs a) (hfuel : fuel ≤ more) :
    Reads fuel read bs a where
  whole hsize hle := h.whole hsize (Nat.le_trans hle hfuel)
  cut hsize c hc hne hlt := h.cut hsize c hc hne (Nat.lt_of_lt_of_le hlt hfuel)

theorem Reads.of_size (h : bs.length ≤ maxText → Reads fuel read bs a) : Reads fuel read bs a where
  whole hsize := (h hsize).whole hsize
  cut hsize := (h hsize).cut hsize

/-- Without fuel nothing is asked of a reader of one byte or more. -/
theorem reads_of_ne_nil (hne : bs ≠ []) : Reads 0 read bs a where
  whole _ hfuel := absurd (List.eq_nil_of_length_eq_zero (Nat.le_zero.mp hfuel)) hne
  cut _ _ _ _ hfuel := absurd hfuel (Nat.not_lt_zero _)

theorem reads_pure (a : α) : Reads fuel (pure a) [] a where
  whole _ _ _ := rfl
  cut _ _ hc hne := absurd (List.prefix_nil.mp hc) hne

theorem bind_of_ok {rest : Bytes} (h : read bs = .ok (a, rest)) :
    (read >>= next) bs = next a rest := by
  show (read bs >>= fun p => next p.1 p.2) = _
  rw [h]
  rfl

theorem bind_of_error {fault : Fault} (h : read bs = .error fault) :
    (read >>= next) bs = .error fault := by
  show (read bs >>= fun p => next p.1 p.2) = _
  rw [h]
  rfl

/-- A part of two byte strings, one after the other, is part of the first or reaches the second. -/
theorem cut_append {c front back : Bytes} (h : c <+: front ++ back) (hne : c ≠ front ++ back) :
    (c <+: front ∧ c ≠ front) ∨ ∃ d, c = front ++ d ∧ d <+: back ∧ d ≠ back := by
  by_cases hlength : c.length < front.length
  · refine .inl ⟨List.prefix_of_prefix_length_le h (List.prefix_append front back) hlength.le, ?_⟩
    rintro rfl
    exact Nat.lt_irrefl _ hlength
  · obtain ⟨d, rfl⟩ := List.prefix_of_prefix_length_le (List.prefix_append front back) h
      (Nat.le_of_not_lt hlength)
    refine .inr ⟨d, rfl, (List.prefix_append_right_inj front).mp h, ?_⟩
    rintro rfl
    exact hne rfl

theorem Reads.bind {more : Bytes} (h : Reads fuel read bs a) (hnext : Reads fuel (next a) more b) :
    Reads fuel (read >>= next) (bs ++ more) b where
  whole hsize hfuel rest := by
    rw [List.length_append] at hsize hfuel
    rw [List.append_assoc, bind_of_ok (h.whole (by omega) (by omega) _)]
    exact hnext.whole (by omega) (by omega) rest
  cut hsize c hc hne hfuel := by
    rw [List.length_append] at hsize
    rcases cut_append hc hne with ⟨hfront, hne⟩ | ⟨d, rfl, hd, hne⟩
    · exact bind_of_error (h.cut (by omega) c hfront hne hfuel)
    · rw [List.length_append] at hfuel
      rw [bind_of_ok (h.whole (by omega) (by omega) d)]
      exact hnext.cut (by omega) d hd hne (by omega)

theorem Reads.map (h : Reads fuel read bs a) (hnext : next a = pure b) :
    Reads fuel (read >>= next) bs b := by
  rw [← List.append_nil bs]
  refine h.bind ?_
  rw [hnext]
  exact reads_pure b

/-- A byte in front pays for a unit of fuel. -/
theorem Reads.behind {front : UInt8} {more : Bytes}
    (hread : ∀ rest, read (front :: rest) = .ok (a, rest)) (hnil : read [] = .error .malformed)
    (h : Reads fuel (next a) more b) : Reads (fuel + 1) (read >>= next) (front :: more) b where
  whole hsize hfuel rest := by
    rw [List.length_cons] at hsize hfuel
    rw [List.cons_append, bind_of_ok (hread _)]
    exact h.whole (by omega) (by omega) rest
  cut hsize c hc hne hfuel := by
    cases c with
    | nil => exact bind_of_error hnil
    | cons first c =>
      obtain ⟨rfl, htail⟩ := List.cons_prefix_cons.mp hc
      rw [List.length_cons] at hsize hfuel
      rw [bind_of_ok (hread c)]
      exact h.cut (by omega) c htail (fun heq => hne (by rw [heq])) (by omega)

end Combinators

/-! ## Bytes, lengths and texts -/

section Leaves

variable {α : Type} {fuel : Nat} {bs : Bytes} {a : α}

theorem reads_byte (b : UInt8) {next : UInt8 → Reader α} (h : Reads fuel (next b) bs a) :
    Reads (fuel + 1) (readByte >>= next) (b :: bs) a :=
  .behind (fun _ => rfl) rfl h

theorem reads_alternative (n : Nat) (hn : n < 251) {next : Nat → Reader α}
    (h : Reads fuel (next n) bs a) :
    Reads (fuel + 1) (readAlternative >>= next) (UInt8.ofNat n :: bs) a := by
  refine .behind (fun rest => ?_) rfl h
  rw [readAlternative, ofFront, Varint.alternative?, Varint.decode?_small hn]

theorem reads_length {n : Nat} (h : n ≤ Word.max64) :
    Reads fuel readLength (Varint.encode n) n where
  whole _ _ rest := by
    rw [readLength, ofFront, Varint.length?, Varint.decode?_encode h]
  cut _ c hc hne _ := by
    rw [readLength, ofFront, Varint.length?, Varint.decode?_cut h 8 hc hne]

theorem reads_bytes (bs : Bytes) : Reads fuel (readBytes bs.length) bs bs where
  whole _ _ rest := by
    rw [readBytes, ofFront, Bytes.take?_append rfl]
  cut _ c hc hne _ := by
    have hlt : c.length < bs.length :=
      Nat.lt_of_le_of_ne hc.length_le fun heq => hne (hc.eq_of_length heq)
    rw [readBytes, ofFront, Bytes.take?_eq_none hlt]

theorem maxText_le : maxText ≤ Word.max64 := by decide

theorem reads_textLength {n : Nat} (h : n ≤ maxText) :
    Reads fuel readTextLength (Varint.encode n) n :=
  (reads_length (Nat.le_trans h maxText_le)).map (by rw [if_neg (Nat.not_lt_of_le h)])

theorem reads_text (s : String) : Reads fuel readText (writeText s) s := by
  refine .of_size fun hsize => ?_
  rw [writeText, List.length_append] at hsize
  refine (reads_textLength (by omega)).bind ((reads_bytes _).map ?_)
  rw [Bytes.toText?_ofText]

end Leaves

/-! ## Lists and options -/

section Containers

variable {α : Type} {fuel : Nat} {read : Reader α} {write : α → Bytes}
variable {items : List α}

theorem reads_many (h : ∀ item ∈ items, Reads fuel read (write item) item) :
    Reads fuel (readMany read items.length) (items.flatMap write) items := by
  induction items with
  | nil => exact reads_pure []
  | cons item items ih =>
    rw [List.forall_mem_cons] at h
    exact h.1.bind ((ih h.2).map rfl)

theorem length_le_flatMap (hne : ∀ item ∈ items, write item ≠ []) :
    items.length ≤ (items.flatMap write).length := by
  induction items with
  | nil => exact Nat.le_refl 0
  | cons item items ih =>
    rw [List.forall_mem_cons] at hne
    have := List.length_pos_iff.mpr hne.1
    rw [List.flatMap_cons, List.length_append, List.length_cons]
    have := ih hne.2
    omega

/-- Items have bytes, so a list is no longer than its bytes. -/
theorem reads_list (hne : ∀ item ∈ items, write item ≠ [])
    (h : ∀ item ∈ items, Reads fuel read (write item) item) :
    Reads fuel (readList read) (writeList write items) items := by
  refine .of_size fun hsize => ?_
  rw [writeList, List.length_append] at hsize
  have := length_le_flatMap hne
  have := maxText_le
  exact (reads_length (by omega)).bind (reads_many h)

theorem writeText_ne_nil (s : String) : writeText s ≠ [] := by
  simp [writeText, Varint.encode_ne_nil]

theorem reads_texts (texts : List String) : Reads fuel readTexts (writeTexts texts) texts :=
  reads_list (fun s _ => writeText_ne_nil s) fun s _ => reads_text s

theorem reads_option {a : Option α} (h : ∀ x ∈ a, Reads fuel read (write x) x) :
    Reads fuel (readOption read) (writeOption write a) a := by
  refine Reads.mono ?_ (Nat.le_succ fuel)
  cases a with
  | none => exact reads_byte 0 (reads_pure none)
  | some x => exact reads_byte 1 ((h x rfl).map rfl)

end Containers

/-! ## Operands -/

section Operands

variable {fuel : Nat}

theorem reads_bool (b : Bool) : Reads fuel readBool [if b then 1 else 0] b := by
  refine Reads.mono ?_ (Nat.le_succ fuel)
  cases b with
  | false => exact reads_byte 0 (reads_pure false)
  | true => exact reads_byte 1 (reads_pure true)

theorem reads_width (width : Width) : Reads fuel readWidth [widthNumber width] width := by
  refine Reads.mono ?_ (Nat.le_succ fuel)
  cases width with
  | u8 => exact reads_alternative 0 (by decide) (reads_pure _)
  | u16 => exact reads_alternative 1 (by decide) (reads_pure _)
  | u32 => exact reads_alternative 2 (by decide) (reads_pure _)
  | u64 => exact reads_alternative 3 (by decide) (reads_pure _)
  | u128 => exact reads_alternative 4 (by decide) (reads_pure _)
  | u256 => exact reads_alternative 5 (by decide) (reads_pure _)

theorem reads_constant (c : Constant) : Reads fuel readConstant (writeConstant c) c := by
  refine Reads.mono ?_ (Nat.le_succ fuel)
  cases c with
  | bool b => exact reads_alternative 0 (by decide) ((reads_bool b).map rfl)
  | string s => exact reads_alternative 1 (by decide) ((reads_text s).map rfl)
  | address s => exact reads_alternative 2 (by decide) ((reads_text s).map rfl)
  | number digits => exact reads_alternative 3 (by decide) ((reads_text digits).map rfl)
  | sender => exact reads_alternative 4 (by decide) (reads_pure _)
  | bytes bs =>
    refine reads_alternative 5 (by decide) (.of_size fun hsize => ?_)
    rw [List.length_append] at hsize
    have := maxText_le
    exact (reads_length (by omega)).bind ((reads_bytes bs).map rfl)

theorem reads_object (o : ObjectRef) : Reads fuel readObject (writeObject o) o := by
  refine Reads.mono ?_ (Nat.le_succ fuel)
  cases o with
  | byId id => exact reads_alternative 0 (by decide) ((reads_text id).map rfl)
  | gas => exact reads_alternative 1 (by decide) (reads_pure _)
  | system => exact reads_alternative 2 (by decide) (reads_pure _)
  | clock => exact reads_alternative 3 (by decide) (reads_pure _)
  | random => exact reads_alternative 4 (by decide) (reads_pure _)

theorem writeOperand_ne_nil (v : Operand) : writeOperand v ≠ [] := by
  cases v <;> simp [writeOperand]

theorem writeOperands_eq (items : List Operand) :
    writeOperand.writeOperands items = items.flatMap writeOperand := by
  induction items with
  | nil => rfl
  | cons item items ih => rw [writeOperand.writeOperands, ih, List.flatMap_cons]

/-- Items of a vector are nested one deeper, and the number of the alternative is a byte more. -/
theorem reads_operand (v : Operand) : Reads fuel (readOperand fuel) (writeOperand v) v := by
  induction fuel generalizing v with
  | zero => exact reads_of_ne_nil (writeOperand_ne_nil v)
  | succ fuel ih =>
    cases v with
    | absent => exact reads_alternative 0 (by decide) (reads_pure _)
    | ref name => exact reads_alternative 1 (by decide) ((reads_text name).map rfl)
    | constant c => exact reads_alternative 2 (by decide) ((reads_constant c).map rfl)
    | integer width digits =>
      exact reads_alternative 3 (by decide)
        ((reads_width width).bind ((reads_text digits).map rfl))
    | object o => exact reads_alternative 4 (by decide) ((reads_object o).map rfl)
    | vector items =>
      rw [writeOperand, writeOperands_eq]
      have hitems : Reads fuel (readList (readOperand fuel)) (writeList writeOperand items) items :=
        reads_list (fun v _ => writeOperand_ne_nil v) fun v _ => ih v
      exact reads_alternative 5 (by decide) (hitems.map rfl)

theorem reads_operands (items : List Operand) :
    Reads fuel (readList (readOperand fuel)) (writeList writeOperand items) items :=
  reads_list (fun v _ => writeOperand_ne_nil v) fun v _ => reads_operand v

theorem reads_group (g : Group) : Reads fuel (readGroup fuel) (writeGroup g) g := by
  refine Reads.mono ?_ (Nat.le_succ fuel)
  cases g with
  | each values => exact reads_alternative 0 (by decide) ((reads_operands values).map rfl)
  | packed value => exact reads_alternative 1 (by decide) ((reads_operand value).map rfl)

theorem writeKind_ne_nil (kind : ParamKind) : writeKind kind ≠ [] := by
  cases kind <;> simp [writeKind]

theorem reads_kind (kind : ParamKind) : Reads fuel (readKind fuel) (writeKind kind) kind := by
  induction fuel generalizing kind with
  | zero => exact reads_of_ne_nil (writeKind_ne_nil kind)
  | succ fuel ih =>
    cases kind with
    | address => exact reads_alternative 0 (by decide) (reads_pure _)
    | bool => exact reads_alternative 1 (by decide) (reads_pure _)
    | id => exact reads_alternative 2 (by decide) (reads_pure _)
    | string => exact reads_alternative 3 (by decide) (reads_pure _)
    | integer width => exact reads_alternative 4 (by decide) ((reads_width width).map rfl)
    | vector elem => exact reads_alternative 5 (by decide) ((ih elem).map rfl)
    | handle => exact reads_alternative 6 (by decide) (reads_pure _)
    | other => exact reads_alternative 7 (by decide) (reads_pure _)

theorem reads_argument (a : Argument) : Reads fuel (readArgument fuel) (writeArgument a) a :=
  (reads_operand a.value).bind ((reads_kind a.kind).map rfl)

end Operands

/-! ## Programs -/

section Programs

variable {fuel : Nat}

theorem writeArgument_ne_nil (a : Argument) : writeArgument a ≠ [] := by
  simp [writeArgument, writeOperand_ne_nil]

theorem reads_operation (op : Operation) :
    Reads fuel (readOperation fuel) (writeOperation op) op := by
  refine Reads.mono ?_ (Nat.le_succ fuel)
  cases op with
  | splitCoins coin amounts out =>
    rw [writeOperation, List.append_assoc]
    exact reads_alternative 0 (by decide) ((reads_operand coin).bind
      ((reads_operands amounts).bind ((reads_texts out).map rfl)))
  | mergeCoins destination sources =>
    exact reads_alternative 1 (by decide)
      ((reads_operand destination).bind ((reads_group sources).map rfl))
  | transferObjects objects recipient =>
    exact reads_alternative 2 (by decide)
      ((reads_group objects).bind ((reads_operand recipient).map rfl))
  | makeMoveVec elem elems out =>
    rw [writeOperation, List.append_assoc]
    exact reads_alternative 3 (by decide) ((reads_option fun s _ => reads_text s).bind
      ((reads_group elems).bind ((reads_text out).map rfl)))
  | moveCall package module function typeArgs args out =>
    have hargs : Reads fuel (readList (readArgument fuel)) (writeList writeArgument args) args :=
      reads_list (fun a _ => writeArgument_ne_nil a) fun a _ => reads_argument a
    simp only [writeOperation, List.append_assoc]
    exact reads_alternative 4 (by decide) ((reads_text package).bind ((reads_text module).bind
      ((reads_text function).bind ((reads_operands typeArgs).bind (hargs.bind
        ((reads_texts out).map rfl))))))
  | publish modules dependencies out =>
    rw [writeOperation, List.append_assoc]
    exact reads_alternative 5 (by decide) ((reads_texts modules).bind
      ((reads_texts dependencies).bind ((reads_text out).map rfl)))
  | upgrade modules dependencies package ticket out =>
    simp only [writeOperation, List.append_assoc]
    exact reads_alternative 6 (by decide) ((reads_texts modules).bind
      ((reads_texts dependencies).bind ((reads_text package).bind
        ((reads_operand ticket).bind ((reads_text out).map rfl)))))

theorem reads_binding (v : Binding) : Reads fuel (readBinding fuel) (writeBinding v) v :=
  (reads_text v.name).bind ((reads_operand v.init).map rfl)

theorem reads_program (p : Program) : Reads fuel (readProgram fuel) p.toBytes p := by
  have hvars : Reads fuel (readList (readBinding fuel)) (writeList writeBinding p.vars) p.vars :=
    reads_list (fun v _ => by simp [writeBinding, writeText_ne_nil]) fun v _ => reads_binding v
  have hops : Reads fuel (readList (readOperation fuel)) (writeList writeOperation p.ops) p.ops :=
    reads_list (fun op _ => by cases op <;> simp [writeOperation]) fun op _ => reads_operation op
  exact hvars.bind (hops.map rfl)

end Programs

end TxGraph.Artifact

namespace TxGraph.Program

/-- A program is read from its bytes, also with others behind them, and from no shorter part. The
bound is that of every byte string: texts and lists inside are then no longer either. -/
theorem ofBytes_toBytes_prefixCode (p : Program) (h : p.toBytes.length ≤ Artifact.maxText) :
    ofBytes p.toBytes = .ok p ∧ (∀ rest, ofBytes (p.toBytes ++ rest) = .ok p) ∧
      ∀ c, c <+: p.toBytes → c ≠ p.toBytes → ofBytes c = .error .malformed := by
  have hwhole (rest : Bytes) : ofBytes (p.toBytes ++ rest) = .ok p := by
    rw [ofBytes, (Artifact.reads_program p).whole h (by rw [List.length_append]; omega)]
    rfl
  refine ⟨?_, hwhole, fun c hc hne => ?_⟩
  · simpa using hwhole []
  · rw [ofBytes, (Artifact.reads_program p).cut h c hc hne (Nat.lt_succ_self _)]
    rfl

/-- A call with a nested vector and a text that needs a mark for its length. -/
def nestedCall : Program where
  vars := [⟨"amounts", .vector [.vector [.integer .u64 "1"], .vector [.constant .sender]]⟩,
    ⟨"note", .constant (.string (String.ofList (List.replicate 300 'a')))⟩]
  ops := [.moveCall "0x2" "pay" "divide" [.constant (.bytes [0, 255])]
    [⟨.ref "amounts", .vector (.vector (.integer .u64))⟩, ⟨.ref "note", .string⟩] ["parts"]]

theorem ofBytes_toBytes_prefixCode_nestedCall :
    nestedCall.toBytes.length ≤ Artifact.maxText ∧
      ofBytes (nestedCall.toBytes ++ [253]) = .ok nestedCall ∧
      ofBytes (nestedCall.toBytes.take 200) = .error .malformed := by
  have hlength : nestedCall.toBytes.length = 382 := by decide +kernel
  have hsize : nestedCall.toBytes.length ≤ Artifact.maxText := by rw [hlength]; decide
  obtain ⟨-, hwhole, hcut⟩ := ofBytes_toBytes_prefixCode nestedCall hsize
  have hpart := List.take_prefix 200 nestedCall.toBytes
  refine ⟨hsize, hwhole [253], hcut _ hpart fun heq => ?_⟩
  have hshorter := congrArg List.length heq
  rw [List.length_take, hlength] at hshorter
  exact absurd hshorter (by decide)

end TxGraph.Program
