import TxGraph.Proofs.Transaction.Tidy
import TxGraph.Transaction.OfProgram

/-!
# Programs that recall a transaction

A program recalls a transaction if it has an operation for each command and an operand for each
argument: an object, the name of a variable with the value of an input, or the name of an earlier
result. `symbol` is the name under which an encoding is declared.
-/

namespace TxGraph

open Transaction (Builder)

section

variable (kinds : UInt16 → ParamKind) (t : Transaction)
  (symbol : UInt16 → Option String) (p : Program)

/-- The operand stands for the argument in the `k`th operation. -/
inductive TxArg.Recalled (k : Nat) : TxArg → Operand → Prop
  | gasCoin : Recalled k .gasCoin (.object .gas)
  | shared {i : UInt16} {id known : String} {o : ObjectRef}
    (hx : t.inputs[i.toNat]? = some (.object id))
    (ho : Builder.objectRef o = Builder.addObject known)
    (hfull : Builder.fullAddress known = .ok id) : Recalled k (.input i) (.object o)
  | object {i : UInt16} {id name : String} (hx : t.inputs[i.toNat]? = some (.object id))
    (hvar : ⟨name, .object (.byId id)⟩ ∈ p.vars) : Recalled k (.input i) (.ref name)
  | pure {i : UInt16} {type : Option String} {bs : Bytes} {name : String} {init : Operand}
    {again : Literal} (hx : t.inputs[i.toNat]? = some (.pure type bs))
    (hname : symbol i = some name) (hvar : ⟨name, init⟩ ∈ p.vars)
    (hliteral : init.literal? = some again)
    (hencodes : PureValue.encode (kinds i) again = .ok ⟨type, bs⟩) : Recalled k (.input i) (.ref name)
  | result {j m : Nat} {c : TxCommand} {op : Operation} {name : String} (hj : j < k)
    (hc : t.commands[j]? = some c) (hop : p.ops[j]? = some op)
    (hname : op.outputs[m]? = some name) : Recalled k (c.resultAt j m) (.ref name)

def TxArg.Spelled (kind : ParamKind) (arg : TxArg) (value : Literal) : Prop :=
  ∃ i type bs, arg = .input i ∧ t.inputs[i.toNat]? = some (.pure type bs) ∧
    PureValue.encode kind value = .ok ⟨type, bs⟩

def Operand.Names (text : String) (value : Operand) : Prop :=
  ∃ name, value = .ref name ∧ ⟨name, .constant (.string text)⟩ ∈ p.vars

/-- The `k`th operation is that of the command. -/
inductive TxCommand.Recalled (k : Nat) : TxCommand → Operation → Prop
  | splitCoins {coin : TxArg} {amounts : List TxArg} {value : Operand} {values : List Operand}
    {out : List String} (hcoin : coin.Recalled kinds t symbol p k value)
    (hamounts : List.Forall₂ (TxArg.Recalled kinds t symbol p k) amounts values)
    (hout : out.length = amounts.length) :
    Recalled k (.splitCoins coin amounts) (.splitCoins value values out)
  | mergeCoins {destination : TxArg} {sources : List TxArg} {value : Operand}
    {values : List Operand} (hdestination : destination.Recalled kinds t symbol p k value)
    (hsources : List.Forall₂ (TxArg.Recalled kinds t symbol p k) sources values) :
    Recalled k (.mergeCoins destination sources) (.mergeCoins value (.each values))
  | transferObjects {objects : List TxArg} {recipient : TxArg} {values : List Operand}
    {value : Operand} (hobjects : List.Forall₂ (TxArg.Recalled kinds t symbol p k) objects values)
    (hrecipient : recipient.Recalled kinds t symbol p k value) :
    Recalled k (.transferObjects objects recipient) (.transferObjects (.each values) value)
  | elements {elem : Option String} {elems : List TxArg} {values : List Operand} {out : String}
    (hpacked : (TxCommand.makeMoveVec elem elems).isPacked t.inputs = false)
    (helems : List.Forall₂ (TxArg.Recalled kinds t symbol p k) elems values) :
    Recalled k (.makeMoveVec elem elems) (.makeMoveVec elem (.each values) out)
  /-- A vector with one element that is itself a vector. -/
  | whole {elem : Option String} {arg : TxArg} {value : Operand} {out : String}
    (hpacked : arg.isPure t.inputs = false) (harg : arg.Recalled kinds t symbol p k value) :
    Recalled k (.makeMoveVec elem [arg]) (.makeMoveVec elem (.packed value) out)
  /-- A vector of vectors as one literal. -/
  | packed {elem : Option String} {elems : List TxArg} {items : List Operand}
    {values : List Literal} {name out : String}
    (hpacked : (TxCommand.makeMoveVec elem elems).isPacked t.inputs = true)
    (hvar : ⟨name, .vector items⟩ ∈ p.vars) (hliteral : Operand.literal?.all? items = some values)
    (helems : List.Forall₂ (TxArg.Spelled t (Lowering.Context.vectorElemKind elem)) elems values) :
    Recalled k (.makeMoveVec elem elems) (.makeMoveVec elem (.packed (.ref name)) out)
  | moveCall {package module function : String} {typeArgs : List String} {args : List TxArg}
    {types : List Operand} {values : List Argument} {out : List String}
    (htypes : List.Forall₂ (Operand.Names p) typeArgs types)
    (hargs : List.Forall₂ (TxArg.Recalled kinds t symbol p k) args (values.map Argument.value))
    (hfits : List.Forall₂ (fun arg (value : Argument) =>
      arg.Fits kinds t.inputs (t.commands.take k) value.kind) args values)
    (hout : out.length < Limited.limit) :
    Recalled k (.moveCall package module function typeArgs args)
      (.moveCall package module function types values out)
  | publish {modules dependencies : List String} {out : String} :
    Recalled k (.publish modules dependencies) (.publish modules dependencies out)
  | upgrade {modules dependencies : List String} {package : String} {ticket : TxArg}
    {value : Operand} {out : String} (hticket : ticket.Recalled kinds t symbol p k value) :
    Recalled k (.upgrade modules dependencies package ticket)
      (.upgrade modules dependencies package value out)

/-- Merging and transferring commands have something to merge or to transfer. -/
def TxCommand.HasElements : TxCommand → Prop
  | mergeCoins _ sources => sources ≠ []
  | transferObjects objects _ => objects ≠ []
  | _ => True

structure Transaction.Recalled : Prop where
  distinct : p.symbols.Nodup
  unsigned (v : Binding) : v ∈ p.vars → v.init.usesSender = false
  symbols {i j : UInt16} {name : String} : symbol i = some name → symbol j = some name → i = j
  length : p.ops.length = t.commands.length
  command (k : Nat) (c : TxCommand) (op : Operation) : t.commands[k]? = some c →
    p.ops[k]? = some op → c.Recalled kinds t symbol p k op

end

/-! ## The sender -/

section

variable {kinds : UInt16 → ParamKind} {t : Transaction}
  {symbol : UInt16 → Option String} {p : Program} {k : Nat}

theorem TxArg.Recalled.usesSender {arg : TxArg} {value : Operand}
    (h : arg.Recalled kinds t symbol p k value) : value.usesSender = false := by
  cases h <;> rfl

theorem Operand.Names.usesSender {text : String} {value : Operand} (h : value.Names p text) :
    value.usesSender = false := by
  obtain ⟨name, rfl, -⟩ := h
  rfl

theorem forall_of_forall₂ {α β : Type} {R : α → β → Prop} {P : β → Prop} {as : List α}
    {bs : List β} (h : List.Forall₂ R as bs) (hP : ∀ a b, R a b → P b) : ∀ b ∈ bs, P b := by
  induction h with
  | nil => nofun
  | cons hfirst _ ih => exact List.forall_mem_cons.mpr ⟨hP _ _ hfirst, ih⟩

theorem TxCommand.Recalled.usesSender {c : TxCommand} {op : Operation}
    (h : c.Recalled kinds t symbol p k op) : ∀ v ∈ op.operands, v.usesSender = false := by
  have hargs {args : List TxArg} {values : List Operand}
      (hvalues : List.Forall₂ (TxArg.Recalled kinds t symbol p k) args values) :
      ∀ v ∈ values, v.usesSender = false :=
    forall_of_forall₂ hvalues fun _ _ harg => harg.usesSender
  cases h with
  | splitCoins hcoin hamounts =>
    exact List.forall_mem_cons.mpr ⟨hcoin.usesSender, hargs hamounts⟩
  | mergeCoins hdestination hsources =>
    exact List.forall_mem_cons.mpr ⟨hdestination.usesSender, hargs hsources⟩
  | transferObjects hobjects hrecipient =>
    exact List.forall_mem_append.mpr
      ⟨hargs hobjects, List.forall_mem_singleton.mpr hrecipient.usesSender⟩
  | elements _ helems => exact hargs helems
  | whole _ harg => exact List.forall_mem_singleton.mpr harg.usesSender
  | packed => exact List.forall_mem_singleton.mpr rfl
  | moveCall htypes hvalues =>
    exact List.forall_mem_append.mpr
      ⟨forall_of_forall₂ htypes fun _ _ hname => hname.usesSender, hargs hvalues⟩
  | publish => nofun
  | upgrade hticket => exact List.forall_mem_singleton.mpr hticket.usesSender

theorem Transaction.Recalled.usesSender (h : Transaction.Recalled kinds t symbol p) :
    p.usesSender = false := by
  rw [Program.usesSender, Bool.or_eq_false_iff, List.any_eq_false, List.any_eq_false]
  refine ⟨fun v hv => by simp [h.unsigned v hv], fun value hvalue => ?_⟩
  obtain ⟨op, hop, hvalue⟩ := List.mem_flatMap.mp hvalue
  obtain ⟨k, hk⟩ := List.mem_iff_getElem?.mp hop
  have hlt : k < t.commands.length := h.length ▸ lt_of_getElem? hk
  have hcommand := h.command k _ op (List.getElem?_eq_getElem hlt) hk
  simp [hcommand.usesSender value hvalue]

end

end TxGraph
