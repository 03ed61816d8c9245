import TxGraph.Proofs.Lowering.Classes
import TxGraph.Proofs.Program.Typing

/-!
# Arguments that variables feed

The calls of a graph without issues become the calls of its transaction, one for one. A variable
that feeds a parameter of a pure kind is put on the wire as that kind says, unless the variable
holds objects.
-/

namespace TxGraph

variable {g : Graph} {inputs : List TxInput} {type : DataType} {c : Command} {i : Nat}

/-! ## Values of variables -/

namespace Operand

theorem holdsObject_infer : (j : Json) → (infer j).holdsObject = false
  | .null => rfl
  | .bool _ => rfl
  | .int _ => rfl
  | .float _ => rfl
  | .obj _ => rfl
  | .str s => by
    rw [infer]
    split <;> rfl
  | .arr items => go items
where
  go : (items : List Json) → holdsObject.anyHoldsObject (infer.inferAll items) = false
    | [] => rfl
    | item :: rest => Bool.or_eq_false_iff.mpr ⟨holdsObject_infer item, go rest⟩

theorem anyHoldsObject_eq_false {items : List Operand}
    (h : ∀ item ∈ items, item.holdsObject = false) :
    holdsObject.anyHoldsObject items = false := by
  induction items with
  | nil => rfl
  | cons item rest ih =>
    obtain ⟨hitem, hrest⟩ := List.forall_mem_cons.mp h
    exact Bool.or_eq_false_iff.mpr ⟨hitem, ih hrest⟩

theorem holdsObject_ofValue : {type : DataType} → ParamKind.ofType type ≠ .handle → (j : Json) →
    (ofValue type j).holdsObject = false
  | .scalar .bool, _, j => by
    rw [← DataType.bool, ofValue_bool]
    rcases boolOf_eq j with h | ⟨b, h⟩ <;> rw [h] <;> rfl
  | .scalar .string, _, j => by cases j <;> rfl
  | .scalar .address, _, j => by cases j <;> rfl
  | .scalar .number, _, j => by cases j <;> rfl
  | .integer _, _, j => by cases j <;> rfl
  | .object tag, h, j => by
    have htag : tag = some DataType.idTag := by
      by_contra hne
      exact h (if_neg hne)
    cases j <;> simp [ofValue, htag, holdsObject]
  | .vector elem, h, j => by
    have helem : ParamKind.ofType elem ≠ .handle := by
      intro heq
      rw [ParamKind.ofType, heq] at h
      exact h rfl
    cases j with
    | arr items =>
      refine anyHoldsObject_eq_false fun item hitem => ?_
      obtain ⟨k, -, rfl⟩ := List.mem_map.mp hitem
      exact holdsObject_ofValue helem k
    | _ => rfl
  | .tuple _, _, j => by cases j <;> rfl
  | .typeParam _, _, j => by cases j <;> rfl
  | .unknown, _, j => by cases j <;> first | rfl | exact holdsObject_infer _

end Operand

namespace Variable

/-- The value that the variable gives to the ports it feeds. -/
def operand (v : Variable) : Operand :=
  match v.inlined with
  | .ok (some value) => value
  | _ => v.initial

theorem refs_operand (v : Variable) : v.operand.refs = [] := by
  unfold operand
  split
  case h_1 value hvalue => exact refs_inlined hvalue
  case h_2 => exact v.refs_initial

theorem holdsObject_operand {v : Variable} (h : ParamKind.ofType v.type ≠ .handle) :
    v.operand.holdsObject = false := by
  unfold operand
  split
  case h_1 value hvalue =>
    unfold inlined at hvalue
    split at hvalue
    case h_1 tag htype =>
      split at hvalue
      case isTrue => cases hvalue
      case isFalse htag =>
        rw [htype] at h
        exact absurd (if_neg htag) h
    case h_2 =>
      have hsender := Except.ok.inj hvalue
      split at hsender <;> cases hsender
      rfl
    case h_3 => cases hvalue
  case h_2 =>
    unfold initial
    split
    · exact Operand.holdsObject_ofValue h _
    · rfl

end Variable

theorem ParamKind.solid_of_isPure : {type : DataType} → (ofType type).isPure = true →
    (ofType type).Solid
  | .scalar kind, _ => by cases kind <;> trivial
  | .integer _, _ => trivial
  | .object tag, h => by
    rw [ofType] at h ⊢
    split
    · trivial
    · rename_i htag
      rw [if_neg htag] at h
      cases h
  | .vector elem, h => by
    have helem : (ofType elem).isPure = true := by
      rw [ofType] at h
      cases hkind : ofType elem <;> simp_all [vectorOf, isPure]
    have hsolid := solid_of_isPure helem
    rw [ofType, vectorOf_of_solid hsolid]
    exact hsolid

/-! ## Calls -/

def Command.call? : Command → Option MoveCall
  | moveCall call => some call
  | _ => none

def TxCommand.call? : TxCommand → Option (Callee × List TxArg)
  | moveCall package module function typeArgs args =>
    some (⟨package, module, function, typeArgs⟩, args)
  | _ => none

def Graph.calls (g : Graph) : List (String × MoveCall) :=
  g.active.filterMap fun x => x.2.call?.map (x.1, ·)

def Transaction.calls (t : Transaction) : List (Callee × List TxArg) :=
  t.commands.filterMap TxCommand.call?

/-- How an argument of a declared kind depends on the variable that feeds it. It is encoded as the
kind says if the variable has a type without objects, or just no object in its value. -/
structure Variable.Feeds (inputs : List TxInput) (kind : ParamKind) (v : Variable) (arg : TxArg) :
    Prop where
  encoded : ParamKind.ofType v.type ≠ .handle ∨ v.operand.holdsObject = false →
    ∃ type, kind.pureType? = some type ∧ arg.Encoded inputs (some type)
  handle : v.operand.holdsObject = true → arg.IsHandle inputs

/-- The call of the graph is issued as that of the transaction, and variables feed parameters of
pure kinds as they should. -/
structure Graph.Sends (g : Graph) (inputs : List TxInput) (x : String × MoveCall)
    (y : Callee × List TxArg) : Prop where
  package : y.1.package = x.2.package
  module : y.1.module = x.2.module
  function : y.1.function = x.2.function
  length : y.2.length = x.2.params.length
  args (i : Nat) (type : DataType) (arg : TxArg) : x.2.params[i]? = some type →
    y.2[i]? = some arg → (ParamKind.ofType type).isPure = true →
    ∀ e v, g.incoming? x.1 (Command.indexed Command.argIn i) = some e →
      g.node? e.source = some (.var v) → v.Feeds inputs (ParamKind.ofType type) arg

theorem Graph.Sends.mono {inputs' : List TxInput} {x : String × MoveCall} {y : Callee × List TxArg}
    (h : g.Sends inputs x y) (hinputs : inputs <+: inputs') : g.Sends inputs' x y := by
  refine ⟨h.package, h.module, h.function, h.length, ?_⟩
  intro i type arg htype harg hpure e v he hv
  obtain ⟨hencoded, hhandle⟩ := h.args i type arg htype harg hpure e v he hv
  refine ⟨fun hfree => ?_, fun hobject => (hhandle hobject).mono hinputs⟩
  obtain ⟨spelling, hspelling, hencoded⟩ := hencoded hfree
  exact ⟨spelling, hspelling, hencoded.mono hinputs⟩

theorem Variable.feeds_of_sent {v : Variable} {arg : TxArg}
    (hpure : (ParamKind.ofType type).isPure = true)
    (h : v.operand.Sent inputs (ParamKind.ofType type) arg) :
    v.Feeds inputs (ParamKind.ofType type) arg := by
  refine ⟨fun hfree => ?_, h.handle⟩
  obtain ⟨spelling, hspelling⟩ := ParamKind.pureType?_of_solid (ParamKind.solid_of_isPure hpure)
  have hobject : v.operand.holdsObject = false :=
    hfree.elim holdsObject_operand fun hfree => hfree
  exact ⟨spelling, hspelling, hspelling ▸ h.encoded hobject⟩

theorem Command.eq_of_call? {call : MoveCall} (h : c.call? = some call) : c = .moveCall call := by
  cases c <;> cases h
  rfl

theorem Command.kind_of_call?_eq_none (h : c.call? = none) : c.kind ≠ .moveCall := by
  cases c with
  | moveCall call => cases h
  | _ => exact nofun

theorem TxCommand.call?_eq_none {d : TxCommand} (h : d.kind? ≠ some .moveCall) :
    d.call? = none := by
  cases d <;> first | rfl | exact absurd rfl h

theorem Compile.arguments_get? {s : Scope} {id : String} {params : List DataType}
    (h : params[i]? = some type) : (arguments s g id params)[i]? =
      some ⟨s.input g id (Command.indexed Command.argIn i), ParamKind.ofType type⟩ := by
  rw [arguments, List.getElem?_map, List.getElem?_zipIdx, h, Nat.zero_add]
  rfl

theorem Operation.rebinds_subset (op : Operation) : op.rebinds ⊆ op.outputs := by
  cases op with
  | splitCoins => exact List.take_subset _ _
  | _ => exact List.Subset.refl _

theorem rel_of_getElem? {α β : Type} {R : α → β → Prop} {as : List α} {bs : List β}
    (h : List.Forall₂ R as bs) {a : α} {b : β} (ha : as[i]? = some a) (hb : bs[i]? = some b) :
    R a b := by
  obtain ⟨hlt, rfl⟩ := List.getElem?_eq_some_iff.mp ha
  obtain ⟨hlt', rfl⟩ := List.getElem?_eq_some_iff.mp hb
  exact h.get hlt hlt'

namespace Graph

open Lowering
open Transaction (Builder)

section

variable {g : Graph} {reserved : List String} {p : Program} (hissues : g.issues = [])
  (h : g.compile reserved = .ok p)

include hissues h

/-- Where its name stands for its value, a variable gives this value. -/
theorem meaning_operandAt {k : Nat} {id : String} (hid : id ∈ g.flow.order) {port : String}
    {e : Edge} (he : g.incoming? id port = some e) {v : Variable}
    (hv : g.node? e.source = some (.var v)) (hport : e.sourceHandle = Port.variableOut)
    {env : Directory (Entry TxArg)}
    (henv : ∀ b ∈ p.vars, Directory.get? env b.name = some (.init b.init)) :
    meaning env (g.operandAt p k id port) = v.operand := by
  obtain ⟨ps, s, s', hbinds, -⟩ := compile_runs h
  rcases hbinds.named_or_inlined (Compile.mem_usedVariables_of_incoming hid he hv) with
    hnamed | ⟨value, hvalue⟩
  · have hnone := Variable.isNamed_iff.mp hnamed
    obtain ⟨name, -, hmem, heq⟩ :=
      operandAt_named (k := k) he (nodup_of_issues hissues) h hid hv hport hnone
    have hvalue : v.operand = v.initial := by rw [Variable.operand, hnone]
    rw [heq, hvalue, meaning, henv _ hmem]
  · have heq : v.operand = value := by rw [Variable.operand, hvalue]
    rw [operandAt_inlined he hv hport hvalue, heq,
      meaning_of_refs env (Variable.refs_inlined hvalue)]

end

/-- The draft after the first `k` operations. No variable was bound again, and the calls so far are
those of the graph. -/
structure Reached (g : Graph) (p : Program) (k : Nat) (w : Draft) : Prop where
  consistent : Consistent w
  vars : ∀ b ∈ p.vars, Directory.get? w.env b.name = some (.init b.init)
  calls : List.Forall₂ (g.Sends w.inputs)
    ((g.active.take k).filterMap fun x => x.2.call?.map (x.1, ·))
    (w.commands.filterMap TxCommand.call?)

section

variable {g : Graph} {reserved : List String} {p : Program} (hissues : g.issues = [])
  (h : g.compile reserved = .ok p) {sender : Option String} {ws : Nat → Draft}
  (hstages : Stages p sender ws)
variable {k : Nat}
variable {id : String} {op : Operation} {s s' : Compile.Scope}

include hstages in
theorem reached_start (g : Graph) : g.Reached p 0 (ws 0) := by
  obtain ⟨hnames, -⟩ := List.nodup_append.mp hstages.distinct
  rw [hstages.start]
  refine ⟨⟨Nat.zero_le _, nofun, nofun, nofun, fun name arg hname => ?_, nofun⟩,
    fun b hb => (declares_initialEnv hnames b.name b.init).mpr hb, .nil⟩
  obtain ⟨v, -, -, hentry⟩ := init_of_initialEnv hname
  cases hentry

include hissues h hstages

/-- A call of the graph ends with its command, to which variables give what they should. -/
theorem Reached.sends_call {call : MoveCall} (hw : g.Reached p k (ws k))
    (hid : g.flow.order[k]? = some id) (hc : g.node? id = some (.command id (.moveCall call)))
    (hop : p.ops[k]? = some op) (hcompiled : Compile.operation g id (.moveCall call) s = (op, s'))
    (hinput : ∀ port, s.input g id port = g.operandAt p k id port) : ∃ front names handed,
      (ws (k + 1)).commands =
        front ++ [.moveCall call.package call.module call.function names handed] ∧
      g.Sends (ws (k + 1)).inputs (id, call)
        (⟨call.package, call.module, call.function, names⟩, handed) := by
  obtain ⟨rfl, -⟩ := Prod.mk.inj hcompiled
  have hlabelled : Labelled { ws k with memo := [] } := ⟨hw.consistent.fewInputs, nofun⟩
  obtain ⟨front, names, handed, hcommands, hargs⟩ :=
    (moveCall_sends _ rfl hlabelled).of_run (hstages.step hop)
  refine ⟨front, names, handed, hcommands, rfl, rfl, rfl, ?_, ?_⟩
  · simpa [Compile.arguments] using hargs.length_eq.symm
  · intro i type arg htype harg hpure e v he hv
    have hq : Port.ioIn (Command.indexed Command.argIn i) type ∈
        (Command.moveCall call).inputPorts :=
      List.mem_append_right _
        (List.mem_map.mpr ⟨(type, i), List.mem_zipIdx_iff_getElem?.mpr htype, rfl⟩)
    obtain ⟨n, r, hn, hr, hport, -⟩ := source_of_incoming hissues hc hq he
    rw [hv] at hn
    cases hn
    obtain rfl := List.mem_singleton.mp hr
    -- the name of the variable was not bound since, so it is resolved to the variable's value
    have hmeaning := meaning_operandAt hissues h (k := k) (List.mem_of_getElem? hid) he hv
      hport.symm hw.vars
    have hsent := rel_of_getElem? hargs (Compile.arguments_get? htype) harg
    rw [hinput] at hsent
    have hdeclared : ParamKind.ofType type ≠ .other := by
      intro hother
      rw [hother] at hpure
      cases hpure
    exact Variable.feeds_of_sent hpure (hmeaning ▸ hsent hdeclared (hmeaning ▸ v.refs_operand))

/-- The last command of an operation is a call exactly if the command of the graph is one. -/
theorem Reached.sends_last {c : Command} (hw : g.Reached p k (ws k))
    (hid : g.flow.order[k]? = some id) (hc : g.node? id = some (.command id c))
    (hop : p.ops[k]? = some op) (hcompiled : Compile.operation g id c s = (op, s'))
    (hinput : ∀ port, s.input g id port = g.operandAt p k id port) {front : List TxCommand}
    {d : TxCommand} (hcommands : (ws (k + 1)).commands = front ++ [d])
    (hkind : d.kind? = some c.kind) :
    List.Forall₂ (g.Sends (ws (k + 1)).inputs)
      ([(id, c)].filterMap fun x => x.2.call?.map (x.1, ·)) ([d].filterMap TxCommand.call?) := by
  cases hcall : c.call? with
  | none =>
    have hd : d.call? = none := TxCommand.call?_eq_none fun hmove =>
      Command.kind_of_call?_eq_none hcall (Option.some.inj (hkind.symm.trans hmove))
    simp [hcall, hd]
  | some call =>
    obtain rfl := Command.eq_of_call? hcall
    obtain ⟨front', names, handed, hmore, hsends⟩ :=
      hw.sends_call hissues h hstages hid hc hop hcompiled hinput
    obtain ⟨-, hd⟩ := List.append_inj' (hcommands.symm.trans hmore) rfl
    rw [hd]
    exact .cons hsends .nil

theorem Reached.step (hk : k < p.ops.length) (hw : g.Reached p k (ws k)) :
    g.Reached p (k + 1) (ws (k + 1)) := by
  obtain ⟨id, hid⟩ : ∃ id, g.flow.order[k]? = some id :=
    ⟨_, List.getElem?_eq_getElem (length_ops h ▸ hk)⟩
  obtain ⟨c, op, s, s', hc, hop, hcompiled, hinput⟩ :=
    compile_operation (nodup_of_issues hissues) h hid
  have hreset : Consistent { ws k with memo := [] } :=
    ⟨hw.consistent.fewInputs, hw.consistent.full, hw.consistent.distinct, hw.consistent.args,
      hw.consistent.bound, nofun⟩
  obtain ⟨hconsistent, hperforms⟩ := (operation_performs rfl op hreset).of_run (hstages.step hop)
  refine ⟨hconsistent, fun b hb => ?_, ?_⟩
  · obtain ⟨-, -, hdisjoint⟩ := List.nodup_append.mp hstages.distinct
    have hother : b.name ∉ op.rebinds := fun hname =>
      hdisjoint _ (List.mem_map_of_mem hb) _
        (List.mem_flatMap.mpr ⟨op, List.mem_of_getElem? hop, op.rebinds_subset hname⟩) rfl
    rw [hperforms.others b.name hother]
    exact hw.vars b hb
  · -- what the operation adds is vectors, which are no calls, and its own command
    obtain ⟨place, hplace⟩ := hstages.exists_place
    obtain ⟨⟨vectors, d, hcommands, hvectors, hissued⟩, -⟩ :=
      (hplace (ws (k + 1)).commands k (Nat.le_of_lt hk)).2 op hop
    have hactive : g.active[k]? = some (id, c) := by
      obtain ⟨c', hactive, hc'⟩ := Compile.commandsOf_get? hid
      rw [hc] at hc'
      cases hc'
      exact hactive
    have hnone : vectors.filterMap TxCommand.call? = [] :=
      List.filterMap_eq_nil_iff.mpr fun v hv => TxCommand.call?_eq_none (by simp [hvectors v hv])
    have hkind : d.kind? = some c.kind :=
      (hissued (List.prefix_refl _)).kind.trans (congrArg some (Compile.Emits.of_eq hcompiled).kind)
    have hlast := hw.sends_last hissues h hstages hid hc hop hcompiled hinput hcommands hkind
    rw [List.take_add_one, hactive, Option.toList_some, hcommands, List.filterMap_append,
      List.filterMap_append, List.filterMap_append, hnone, List.append_nil]
    exact List.rel_append (hw.calls.imp fun _ _ hsends => hsends.mono hperforms.inputs) hlast

end

/-- **Variables keep the class that their ports declare.** The calls of a graph without issues
become those of the transaction. Where a variable feeds a parameter of a pure kind, the argument is
an encoding that is recorded with the type of the kind, exactly if the value of the variable holds
no object. That is so for every variable whose own type is not one of objects. -/
theorem calls_keep_class {g : Graph} {reserved : List String} {p : Program} {options : ExecOptions}
    {t : Transaction} (hissues : g.issues = []) (h : g.compile reserved = .ok p)
    (hbuilt : Transaction.ofProgram p options = .ok t) :
    List.Forall₂ (g.Sends t.inputs) g.calls t.calls := by
  obtain ⟨w, hwalk, -, hinputs, hcommands⟩ := Transaction.exists_walk_of_ofProgram hbuilt
  obtain ⟨ws, hstages, hlast⟩ := exists_stages (Program.wellScoped_of_compile h).distinct hwalk
  have hreached (k : Nat) (hk : k ≤ p.ops.length) : g.Reached p k (ws k) := by
    induction k with
    | zero => exact reached_start hstages g
    | succ k ih => exact (ih (Nat.le_of_succ_le hk)).step hissues h hstages hk
  have hcalls := (hreached _ (Nat.le_refl _)).calls
  have hall : g.active.take p.ops.length = g.active := by
    refine List.take_of_length_le ?_
    rw [length_ops h, ← List.length_map Prod.fst, active,
      Compile.map_fst_commandsOf fun _ => command_of_mem_order]
  rwa [hall, hlast, ← hinputs, ← hcommands] at hcalls

end Graph

/-- Five ways to give what an entry asks for: an id, an object, a vector of objects, a vector of
none, and bytes. -/
def registry : Graph where
  nodes := [.start "s", .finish "e",
    .var ⟨"k", "key", .objectOf DataType.idTag, some (.str "0xb")⟩,
    .var ⟨"o", "item", .anyObject, some (.str "0xa")⟩,
    .var ⟨"l", "items", .vector .anyObject, some (.arr [.str "0xa"])⟩,
    .var ⟨"n", "others", .vector .anyObject, some (.arr [])⟩,
    .var ⟨"u", "raw", .unknown, some (.str "0x0102")⟩,
    .command "c" (.moveCall ⟨"0x2", "registry", "enlist", [],
      [.objectOf DataType.idTag, .objectOf DataType.idTag, .vector (.objectOf DataType.idTag),
        .vector (.objectOf DataType.idTag), .integer .u16], []⟩)]
  edges := [.flow "s" "c", .flow "c" "e", .io "k" "out" "c" "in_arg_0" none,
    .io "o" "out" "c" "in_arg_1" none, .io "l" "out" "c" "in_arg_2" none,
    .io "n" "out" "c" "in_arg_3" none, .io "u" "out" "c" "in_arg_4" none]

def registryProgram : Program where
  vars := [⟨"key", .constant (.address "0xb")⟩, ⟨"item", .object (.byId "0xa")⟩,
    ⟨"items", .vector [.object (.byId "0xa")]⟩, ⟨"others", .vector []⟩,
    ⟨"raw", .constant (.bytes [1, 2])⟩]
  ops := [.moveCall "0x2" "registry" "enlist" []
    [⟨.ref "key", .id⟩, ⟨.ref "item", .id⟩, ⟨.ref "items", .vector .id⟩,
      ⟨.ref "others", .vector .id⟩, ⟨.ref "raw", .integer .u16⟩] []]

def registryTransaction : Transaction where
  sender := none
  gasBudget := none
  inputs := [.pure (some "0x2::object::ID") (List.replicate 31 0 ++ [11]),
    .object "0x000000000000000000000000000000000000000000000000000000000000000a",
    .pure (some "vector<0x2::object::ID>") [0], .pure (some "u16") [1, 2]]
  commands := [.makeMoveVec (some "0x2::object::ID") [.input 1],
    .moveCall "0x2" "registry" "enlist" [] [.input 0, .input 1, .result 0, .input 2, .input 3]]

theorem registry_becomes :
    registry.issues = [] ∧ registry.compile [] = .ok registryProgram ∧
      Transaction.ofProgram registryProgram ⟨none, none⟩ = .ok registryTransaction :=
  ⟨by decide +kernel, by decide +kernel, by decide +kernel⟩

theorem calls_keep_class_registry :
    registry.issues = [] ∧ registry.compile [] = .ok registryProgram ∧
      Transaction.ofProgram registryProgram ⟨none, none⟩ = .ok registryTransaction ∧
      registryTransaction.calls = [(⟨"0x2", "registry", "enlist", []⟩,
        [.input 0, .input 1, .result 0, .input 2, .input 3])] ∧
      List.Forall₂ (registry.Sends registryTransaction.inputs) registry.calls
        registryTransaction.calls := by
  obtain ⟨hissues, h, hbuilt⟩ := registry_becomes
  exact ⟨hissues, h, hbuilt, rfl, Graph.calls_keep_class hissues h hbuilt⟩

/-- No issue is reported of an object that is led to a parameter for an id, and it is passed as an
object. -/
theorem registry_sends_object_for_id :
    registry.issues = [] ∧ registry.compile [] = .ok registryProgram ∧
      Transaction.ofProgram registryProgram ⟨none, none⟩ = .ok registryTransaction ∧
      ∃ x ∈ registry.calls, ∃ y ∈ registryTransaction.calls, ∃ type arg e v,
        x.2.params[1]? = some type ∧ (ParamKind.ofType type).isPure = true ∧
        y.2[1]? = some arg ∧ registry.incoming? x.1 (Command.indexed Command.argIn 1) = some e ∧
        registry.node? e.source = some (.var v) ∧
        ∀ recorded, ¬ arg.Encoded registryTransaction.inputs recorded := by
  obtain ⟨hissues, h, hbuilt⟩ := registry_becomes
  refine ⟨hissues, h, hbuilt, _, List.mem_cons_self, _, List.mem_cons_self,
    .objectOf DataType.idTag, .input 1, .io "o" "out" "c" "in_arg_1" none,
    ⟨"o", "item", .anyObject, some (.str "0xa")⟩, rfl, rfl, rfl, by decide +kernel,
    by decide +kernel, fun recorded => ?_⟩
  exact TxArg.IsHandle.not_encoded (.inr (.inl ⟨1, _, rfl, rfl⟩))

end TxGraph
