import TxGraph.Proofs.Lowering.Draft
import TxGraph.Proofs.Lowering.Env

/-!
# What an operation does to a draft

Each function of the walk, as far as it builds a transaction, as a relation between the draft before
it and the draft after it. Operands are resolved (`Evaluates`), by which objects become inputs, and
encoded (`Delivers`), by which literals become inputs and lists of handles become vectors. Then the
command of the operation is added, and its results are named (`OperationStep`). What holds of drafts
is shown along these relations; the walk is not opened again.
-/

namespace TxGraph.Lowering

open Transaction (Builder BuilderM)
open Transaction.Builder

/-! ## Calls of the builder -/

/-- An object is the gas coin, an input that is there, or a new input. -/
inductive Obtains (w : Draft) : TxArg → Draft → Prop
  | gas : Obtains w .gasCoin w
  | known {n : Nat} {id : String} (h : w.inputs[n]? = some (.object id)) :
    Obtains w (.input (UInt16.ofNat n)) w
  | new {text id : String} (hid : fullAddress text = .ok id) (hnew : .object id ∉ w.inputs)
    (hroom : w.inputs.length < Limited.limit) :
    Obtains w (.input (UInt16.ofNat w.inputs.length)) (w.addInput (.object id))

/-- A literal was encoded before under the symbol, or its encoding is a new input, which is
remembered if there is a symbol. -/
inductive Records (kind : ParamKind) (symbol : Option String) (w : Draft) (value : Literal) :
    TxArg → Draft → Prop
  | again {name : String} {arg : TxArg} (hsymbol : symbol = some name)
    (h : ((kind, name), arg) ∈ w.memo) : Records kind symbol w value arg w
  | anew {sender : Option String} {found : PureValue}
    {memo : List ((ParamKind × String) × TxArg)}
    (hfound : PureValue.encode kind (value.given sender) = .ok found)
    (hroom : w.inputs.length < Limited.limit)
    (hmemo : ∀ e ∈ memo, e ∈ w.memo ∨
      e.1.1 = kind ∧ e.2 = .input (UInt16.ofNat w.inputs.length))
    (hnone : symbol = none → memo = w.memo) :
    Records kind symbol w value (.input (UInt16.ofNat w.inputs.length))
      { w.addInput (.pure found.type found.bytes) with memo := memo }

section

variable {w : Draft} {c : Context Builder TxArg} (hc : c.target = Builder.target)

theorem addObject_obtains {text : String} {arg : TxArg} {b : Builder}
    (h : asTarget (addObject text) w.target = .ok (arg, b)) :
    Obtains w arg { w with target := b } := by
  rw [asTarget_addObject] at h
  cases hid : fullAddress text with
  | error cause => simp [hid] at h
  | ok id =>
    simp only [hid] at h
    cases hfound : w.target.inputs.findIdx? (· == .object id) with
    | some n =>
      simp only [hfound] at h
      cases h
      exact .known (Array.getElem?_toList.trans (findIdx?_object hfound))
    | none =>
      simp only [hfound] at h
      obtain ⟨hroom, rfl, rfl⟩ := pushInput_eq_ok h
      refine .new hid (fun hmem => ?_) hroom
      exact findIdx?_object_eq_none.mp hfound (Array.mem_toList_iff.mp hmem)

include hc

theorem object_ensures (o : ObjectRef) (symbol : Option String) :
    Ensures (fun _ => True) w (c.call (c.target.object o symbol)) (Obtains w) := by
  refine call_ensures c fun arg b h => ?_
  have hcall : asTarget (objectRef o) w.target = .ok (arg, b) := by
    rw [hc] at h
    exact h
  cases o with
  | gas =>
    cases hcall
    exact .gas
  | _ => exact addObject_obtains hcall

theorem encodeLiteral_ensures (kind : ParamKind) (value : Literal) (symbol : Option String) :
    Ensures (fun _ => True) w (c.encodeLiteral kind value symbol) (Records kind symbol w value) := by
  -- the call as such, before the encoding is remembered
  have hpure (symbol : Option String) : Ensures (fun _ => True) w
      (c.call (c.target.pure kind (value.given c.sender) symbol)) fun arg w' =>
        ∃ found, PureValue.encode kind (value.given c.sender) = .ok found ∧
          w.inputs.length < Limited.limit ∧ arg = .input (UInt16.ofNat w.inputs.length) ∧
          w' = w.addInput (.pure found.type found.bytes) := by
    refine call_ensures c fun arg b h => ?_
    have hcall : asTarget (literal kind (value.given c.sender)) w.target =
        .ok (arg, b) := by
      rw [hc] at h
      exact h
    rw [asTarget_literal] at hcall
    split at hcall
    case h_1 found hfound =>
      obtain ⟨hroom, rfl, rfl⟩ := pushInput_eq_ok hcall
      exact ⟨found, hfound, hroom, rfl, rfl⟩
    case h_2 => cases hcall
  refine .get_bind ?_
  cases symbol with
  | none =>
    refine .bind (hpure none) ?_
    rintro _ _ ⟨found, hfound, hroom, rfl, rfl⟩
    exact .pure (.anew hfound hroom (fun _ => .inl) fun _ => rfl)
  | some name =>
    simp only [Option.bind_some]
    cases hknown : w.memo.lookup (kind, name) with
    | some arg =>
      obtain ⟨before, after, hsplit, -⟩ := List.lookup_eq_some_iff.mp hknown
      exact .pure (.again rfl (hsplit ▸ List.mem_append_right before List.mem_cons_self))
    | none =>
      refine .bind (hpure (some name)) ?_
      rintro _ _ ⟨found, hfound, hroom, rfl, rfl⟩
      refine .modify_bind (.pure (.anew hfound hroom ?_ nofun))
      exact List.forall_mem_cons.mpr ⟨.inr ⟨rfl, rfl⟩, fun _ => .inl⟩

end

/-! ## Resolving -/

mutual

inductive Evaluates : Draft → Operand → Resolved TxArg → Draft → Prop
  | constant {w : Draft} (k : Constant) :
    Evaluates w (.constant k) (.literal (constantLiteral k)) w
  | integer {w : Draft} (width : Width) (digits : String) :
    Evaluates w (.integer width digits) (.literal (.integer width digits)) w
  | object {w w' : Draft} {arg : TxArg} (o : ObjectRef) (h : Obtains w arg w') :
    Evaluates w (.object o) (.handle arg) w'
  | bound {w : Draft} {name : String} {arg : TxArg}
    (h : Directory.get? w.env name = some (.bound arg)) : Evaluates w (.ref name) (.handle arg) w
  | init {w w' : Draft} {name : String} {value : Operand} {r : Resolved TxArg}
    (h : Directory.get? w.env name = some (.init value)) (hclosed : ∀ other, value ≠ .ref other)
    (hvalue : Evaluates w value r w') : Evaluates w (.ref name) r w'
  | vector {w w' : Draft} {items : List Operand} {rs : List (Resolved TxArg)}
    (h : EvaluatesAll w items rs w') : Evaluates w (.vector items) (.vector rs) w'

inductive EvaluatesAll : Draft → List Operand → List (Resolved TxArg) → Draft → Prop
  | nil {w : Draft} : EvaluatesAll w [] [] w
  | cons {w w₁ w₂ : Draft} {item : Operand} {rest : List Operand} {r : Resolved TxArg}
    {rs : List (Resolved TxArg)} (h : Evaluates w item r w₁) (hrest : EvaluatesAll w₁ rest rs w₂) :
    EvaluatesAll w (item :: rest) (r :: rs) w₂

end

section

variable {c : Context Builder TxArg} (hc : c.target = Builder.target)

include hc

theorem resolveWith_ensures {expand : String → Operand → WalkM Builder TxArg (Resolved TxArg)}
    (hexpand : ∀ name value w, Ensures (fun _ => True) w (expand name value) (Evaluates w value))
    (slot : Slot) : (symbol : Option String) → (value : Operand) → (w : Draft) →
    Ensures (fun _ => True) w (c.resolveWith expand slot symbol value) (Evaluates w value)
  | _, .absent, _ => .throw trivial
  | _, .constant k, _ => .pure (.constant k)
  | _, .integer width digits, _ => .pure (.integer width digits)
  | symbol, .object o, _ => .bind (object_ensures hc o symbol) fun _ _ h => .pure (.object o h)
  | _, .vector items, w => .bind (go items w) fun _ _ h => .pure (.vector h)
  | _, .ref name, w => by
    refine .get_bind ?_
    cases hentry : Directory.get? w.env name with
    | none => exact .throw trivial
    | some entry =>
      cases entry with
      | bound arg => exact .pure (.bound hentry)
      | init value =>
        have hvalue (hclosed : ∀ other, value ≠ .ref other) :
            Ensures (fun _ => True) w (expand name value) (Evaluates w (.ref name)) :=
          (hexpand name value w).mono fun _ _ => .init hentry hclosed
        cases value with
        | ref _ => exact .throw trivial
        | _ => exact hvalue nofun
where
  go : (items : List Operand) → (w : Draft) → Ensures (fun _ => True) w
      (Context.resolveWith.resolveItems c expand slot items) (EvaluatesAll w items)
    | [], _ => .pure .nil
    | item :: rest, w =>
      .bind (resolveWith_ensures hexpand slot none item w) fun _ w₁ h =>
        .bind (go rest w₁) fun _ _ hrest => .pure (.cons h hrest)

theorem resolve_ensures (slot : Slot) (value : Operand) (w : Draft) :
    Ensures (fun _ => True) w (c.resolve slot value) (Evaluates w value) := by
  have hfrom (depth : Nat) (symbol : Option String) : ∀ (value : Operand) (w : Draft),
      Ensures (fun _ => True) w (c.resolveFrom slot depth symbol value) (Evaluates w value) := by
    induction depth generalizing symbol with
    | zero => exact resolveWith_ensures hc (fun _ _ _ => .throw trivial) slot symbol
    | succ depth ih => exact resolveWith_ensures hc (fun name => ih (some name)) slot symbol
  exact hfrom c.depth (symbolOf value) value w

end

/-! ## Encoding -/

mutual

inductive Delivers :
    ParamKind → Option String → Draft → Resolved TxArg → TxArg → Draft → Prop
  | handle {kind : ParamKind} {symbol : Option String} {w : Draft} (arg : TxArg) :
    Delivers kind symbol w (.handle arg) arg w
  | literal {kind : ParamKind} {symbol : Option String} {w w' : Draft} {arg : TxArg}
    {value : Literal} (h : Records kind symbol w value arg w') :
    Delivers kind symbol w (.literal value) arg w'
  | list {kind : ParamKind} {symbol : Option String} {w w' : Draft}
    {items : List (Resolved TxArg)} {args : List TxArg}
    (h : DeliversAll (Context.elemKind kind) w items args w')
    (hroom : w'.commands.length < Limited.limit) :
    Delivers kind symbol w (.list items) (.result (UInt16.ofNat w'.commands.length))
      (w'.addCommand (.makeMoveVec (Context.elemKind kind).pureType? args))

inductive DeliversAll : ParamKind → Draft → List (Resolved TxArg) → List TxArg → Draft → Prop
  | nil {kind : ParamKind} {w : Draft} : DeliversAll kind w [] [] w
  | cons {kind : ParamKind} {w w₁ w₂ : Draft} {item : Resolved TxArg}
    {rest : List (Resolved TxArg)} {arg : TxArg} {args : List TxArg}
    (h : Delivers kind none w item arg w₁) (hrest : DeliversAll kind w₁ rest args w₂) :
    DeliversAll kind w (item :: rest) (arg :: args) w₂

end

def Gives (kind : ParamKind) (w : Draft) (value : Operand) (arg : TxArg) (w' : Draft) : Prop :=
  ∃ r w₁, Evaluates w value r w₁ ∧ Delivers kind (symbolOf value) w₁ r arg w'

inductive GivesAll : Draft → List Argument → List TxArg → Draft → Prop
  | nil {w : Draft} : GivesAll w [] [] w
  | cons {w w₁ w₂ : Draft} {a : Argument} {rest : List Argument} {arg : TxArg} {args : List TxArg}
    (h : Gives a.kind w a.value arg w₁) (hrest : GivesAll w₁ rest args w₂) :
    GivesAll w (a :: rest) (arg :: args) w₂

inductive Listed : Resolved TxArg → List (Resolved TxArg) → Prop
  | list (rs : List (Resolved TxArg)) : Listed (.list rs) rs
  | literal (vs : List Literal) : Listed (.literal (.list vs)) (vs.map .literal)

inductive Spreads (kind : ParamKind) (w : Draft) : Group → List TxArg → Draft → Prop
  | each {values : List Operand} {args : List TxArg} {w' : Draft}
    (h : GivesAll w (values.map fun v => ⟨v, kind⟩) args w') : Spreads kind w (.each values) args w'
  | whole {value : Operand} {arg : TxArg} {w' : Draft} (h : Evaluates w value (.handle arg) w') :
    Spreads kind w (.packed value) [arg] w'
  | items {value : Operand} {r : Resolved TxArg} {rs : List (Resolved TxArg)} {args : List TxArg}
    {w₁ w' : Draft} (h : Evaluates w value r w₁) (hlisted : Listed r rs)
    (hargs : DeliversAll kind w₁ rs args w') : Spreads kind w (.packed value) args w'

/-- The operands are resolved to texts, which are trimmed and not empty. -/
inductive NamesTypes : Draft → List Operand → List String → Draft → Prop
  | nil {w : Draft} : NamesTypes w [] [] w
  | cons {w w₁ w₂ : Draft} {value : Operand} {rest : List Operand} {s : String}
    {names : List String} (h : Evaluates w value (.literal (.string s)) w₁)
    (hname : Text.trim s ≠ "") (hrest : NamesTypes w₁ rest names w₂) :
    NamesTypes w (value :: rest) (Text.trim s :: names) w₂

theorem GivesAll.length_eq {w w' : Draft} {values : List Argument} {args : List TxArg}
    (h : GivesAll w values args w') : args.length = values.length := by
  induction h with
  | nil => rfl
  | cons _ _ ih => exact congrArg Nat.succ ih

section

variable {c : Context Builder TxArg} (hc : c.target = Builder.target)

include hc

theorem encode_ensures (symbol : Option String) : (kind : ParamKind) → (r : Resolved TxArg) →
    (w : Draft) → Ensures (fun _ => True) w (c.encode kind symbol r) (Delivers kind symbol w r)
  | _, .handle arg, _ => .pure (.handle arg)
  | kind, .literal value, _ =>
    (encodeLiteral_ensures hc kind value symbol).mono fun _ _ => .literal
  | kind, .list items, w => by
    refine .bind (go (Context.elemKind kind) items w) fun args w₁ h =>
      call_ensures c fun arg b hcall => ?_
    rw [hc] at hcall
    obtain ⟨-, hroom, rfl, rfl⟩ := (appends_pushWithResult _).eq_ok hcall
    exact .list h hroom
where
  go (kind : ParamKind) : (items : List (Resolved TxArg)) → (w : Draft) → Ensures (fun _ => True) w
      (Context.encode.encodeItems c kind items) (DeliversAll kind w items)
    | [], _ => .pure .nil
    | item :: rest, w =>
      .bind (encode_ensures none kind item w) fun _ w₁ h =>
        .bind (go kind rest w₁) fun _ _ hrest => .pure (.cons h hrest)

theorem argument_ensures (slot : Slot) (kind : ParamKind) (value : Operand) (w : Draft) :
    Ensures (fun _ => True) w (c.argument slot kind value) (Gives kind w value) :=
  .bind (resolve_ensures hc slot value w) fun r w₁ hr =>
    (encode_ensures hc _ kind r w₁).mono fun _ _ h => ⟨r, w₁, hr, h⟩

theorem handle_ensures (slot : Slot) (value : Operand) (w : Draft) :
    Ensures (fun _ => True) w (c.handle slot value) fun arg => Evaluates w value (.handle arg) := by
  refine .bind (resolve_ensures hc slot value w) fun r _ hr => ?_
  cases r with
  | handle arg => exact .pure hr
  | _ => exact .throw trivial

theorem element_ensures (slot : Slot) (kind : ParamKind) (symbol : Option String)
    (r : Resolved TxArg) (w : Draft) :
    Ensures (fun _ => True) w (c.element slot kind symbol r) (Delivers kind symbol w r) := by
  have h := encode_ensures hc symbol kind r w
  cases r with
  | literal v =>
    simp only [Context.element]
    split
    · exact .throw trivial
    · exact h
  | _ => exact h

theorem elements_ensures (slot : Slot) (kind : ParamKind) : (items : List (Resolved TxArg)) →
    (w : Draft) → Ensures (fun _ => True) w (c.elements slot kind items) (DeliversAll kind w items)
  | [], _ => .pure .nil
  | item :: rest, w =>
    .bind (element_ensures hc slot kind none item w) fun _ w₁ h =>
      .bind (elements_ensures slot kind rest w₁) fun _ _ hrest => .pure (.cons h hrest)

theorem numbered_ensures (name : String) (kind : ParamKind) : (i : Nat) →
    (values : List Operand) → (w : Draft) → Ensures (fun _ => True) w
      (c.numbered name kind i values) (GivesAll w (values.map fun v => ⟨v, kind⟩))
  | _, [], _ => .pure .nil
  | i, value :: rest, w =>
    .bind (resolve_ensures hc (.nth name i) value w) fun r w₁ hr =>
      .bind (element_ensures hc (.nth name i) kind _ r w₁) fun _ w₂ h =>
        .bind (numbered_ensures name kind (i + 1) rest w₂) fun _ _ hrest =>
          .pure (.cons ⟨r, w₁, hr, h⟩ hrest)

theorem spread_ensures (name : String) (kind : ParamKind) (group : Group) (w : Draft) :
    Ensures (fun _ => True) w (c.spread name kind group) (Spreads kind w group) := by
  cases group with
  | each values => exact (numbered_ensures hc name kind 0 values w).mono fun _ _ => .each
  | packed value =>
    refine .bind (resolve_ensures hc (.of name) value w) fun r w₁ hr => ?_
    cases r with
    | handle arg => exact .pure (.whole hr)
    | list items => exact (elements_ensures hc _ kind items w₁).mono fun _ _ => .items hr (.list items)
    | literal v =>
      cases v with
      | list vs => exact (elements_ensures hc _ kind _ w₁).mono fun _ _ => .items hr (.literal vs)
      | _ => exact .throw trivial

theorem arguments_ensures (name : String) : (i : Nat) → (values : List Argument) → (w : Draft) →
    Ensures (fun _ => True) w (c.arguments name i values) (GivesAll w values)
  | _, [], _ => .pure .nil
  | i, a :: rest, w =>
    .bind (argument_ensures hc (.nth name i) a.kind a.value w) fun _ w₁ h =>
      .bind (arguments_ensures name (i + 1) rest w₁) fun _ _ hrest => .pure (.cons h hrest)

theorem typeNames_ensures : (i : Nat) → (values : List Operand) → (w : Draft) →
    Ensures (fun _ => True) w (c.typeNames i values) (NamesTypes w values)
  | _, [], _ => .pure .nil
  | i, value :: rest, w => by
    have hname : Ensures (fun _ => True) w (c.typeName (.nth "type_arg" i) value) fun name w' =>
        ∃ s, name = Text.trim s ∧ name ≠ "" ∧ Evaluates w value (.literal (.string s)) w' := by
      refine .bind (resolve_ensures hc _ value w) fun r w₁ hr => ?_
      cases r with
      | literal v =>
        cases v with
        | string s =>
          dsimp only
          split
          · exact .throw trivial
          case isFalse hempty =>
            refine .pure ⟨s, rfl, fun hnil => hempty ?_, hr⟩
            rw [hnil]
            rfl
        | _ => exact .throw trivial
      | _ => exact .throw trivial
    refine .bind hname ?_
    rintro _ w₁ ⟨s, rfl, hne, h⟩
    exact .bind (typeNames_ensures (i + 1) rest w₁) fun _ _ hrest => .pure (.cons h hne hrest)

end

/-! ## Operations -/

/-- The operands of the operation are gathered to the arguments of the command. -/
inductive Prepares (w : Draft) : Operation → TxCommand → Draft → Prop
  | splitCoins {coin : Operand} {amounts : List Operand} {arg : TxArg} {args : List TxArg}
    {w₁ w₂ : Draft} (out : List String) (hcoin : Evaluates w coin (.handle arg) w₁)
    (hamounts : GivesAll w₁ (amounts.map fun v => ⟨v, .integer .u64⟩) args w₂) :
    Prepares w (.splitCoins coin amounts out) (.splitCoins arg args) w₂
  | mergeCoins {destination : Operand} {sources : Group} {arg : TxArg} {args : List TxArg}
    {w₁ w₂ : Draft} (hdestination : Evaluates w destination (.handle arg) w₁)
    (hsources : Spreads .handle w₁ sources args w₂) :
    Prepares w (.mergeCoins destination sources) (.mergeCoins arg args) w₂
  | transferObjects {objects : Group} {recipient : Operand} {args : List TxArg} {arg : TxArg}
    {w₁ w₂ : Draft} (hobjects : Spreads .handle w objects args w₁)
    (hrecipient : Gives .address w₁ recipient arg w₂) :
    Prepares w (.transferObjects objects recipient) (.transferObjects args arg) w₂
  | makeMoveVec {elem : Option String} {elems : Group} {args : List TxArg} {w₁ : Draft}
    (out : String) (helems : Spreads (Context.vectorElemKind elem) w elems args w₁) :
    Prepares w (.makeMoveVec elem elems out) (.makeMoveVec elem args) w₁
  | moveCall {typeArgs : List Operand} {names : List String} {values : List Argument}
    {args : List TxArg} {w₁ w₂ : Draft} (package module function : String) (out : List String)
    (htypes : NamesTypes w typeArgs names w₁) (hargs : GivesAll w₁ values args w₂) :
    Prepares w (.moveCall package module function typeArgs values out)
      (.moveCall package module function names args) w₂
  | publish (modules dependencies : List String) (out : String) :
    Prepares w (.publish modules dependencies out) (.publish modules dependencies) w
  | upgrade {ticket : Operand} {arg : TxArg} {w₁ : Draft} (modules dependencies : List String)
    (package out : String) (hticket : Evaluates w ticket (.handle arg) w₁) :
    Prepares w (.upgrade modules dependencies package ticket out)
      (.upgrade modules dependencies package arg) w₁

/-! ## What is collected -/

/-- Objects and encodings were added as inputs, and vectors as commands. -/
inductive Collects (w : Draft) : Draft → Prop
  | nil : Collects w w
  | object {w' : Draft} (h : Collects w w') (id : String) (hroom : w'.inputs.length < Limited.limit) :
    Collects w (w'.addInput (.object id))
  | pure {w' : Draft} (h : Collects w w') {kind : ParamKind} {value : Literal} {found : PureValue}
    {memo : List ((ParamKind × String) × TxArg)} (hfound : PureValue.encode kind value = .ok found)
    (hroom : w'.inputs.length < Limited.limit)
    (hmemo : ∀ e ∈ memo, e ∈ w'.memo ∨
      e.1.1 = kind ∧ e.2 = .input (UInt16.ofNat w'.inputs.length)) :
    Collects w { w'.addInput (.pure found.type found.bytes) with memo := memo }
  | vector {w' : Draft} (h : Collects w w') (elem : Option String) (args : List TxArg) :
    Collects w (w'.addCommand (.makeMoveVec elem args))

theorem Collects.trans {w w' w'' : Draft} (h : Collects w w') (h' : Collects w' w'') :
    Collects w w'' := by
  induction h' with
  | nil => exact h
  | object _ id hroom ih => exact .object ih id hroom
  | pure _ hfound hroom hmemo ih => exact .pure ih hfound hroom hmemo
  | vector _ elem args ih => exact .vector ih elem args

theorem Evaluates.collects {w w' : Draft} {value : Operand} {r : Resolved TxArg} :
    Evaluates w value r w' → Collects w w'
  | .constant _ | .integer _ _ | .bound _ => .nil
  | .object _ h => by
    cases h with
    | new hid hnew hroom => exact .object .nil _ hroom
    | _ => exact .nil
  | .init _ _ h => h.collects
  | .vector h => go h
where
  go {w w' : Draft} {items : List Operand} {rs : List (Resolved TxArg)} :
      EvaluatesAll w items rs w' → Collects w w'
    | .nil => .nil
    | .cons h hrest => h.collects.trans (go hrest)

theorem Delivers.collects {kind : ParamKind} {symbol : Option String} {w w' : Draft}
    {r : Resolved TxArg} {arg : TxArg} : Delivers kind symbol w r arg w' → Collects w w'
  | .handle _ => .nil
  | .literal h => by
    cases h with
    | again => exact .nil
    | anew hfound hroom hmemo => exact .pure .nil hfound hroom hmemo
  | .list h _ => .vector (go h) _ _
where
  go {kind : ParamKind} {w w' : Draft} {items : List (Resolved TxArg)} {args : List TxArg} :
      DeliversAll kind w items args w' → Collects w w'
    | .nil => .nil
    | .cons h hrest => h.collects.trans (go hrest)

section

variable {kind : ParamKind} {w w' : Draft} {args : List TxArg}

theorem Gives.collects {value : Operand} {arg : TxArg} (h : Gives kind w value arg w') :
    Collects w w' := by
  obtain ⟨r, w₁, hr, harg⟩ := h
  exact hr.collects.trans harg.collects

theorem GivesAll.collects {values : List Argument} (h : GivesAll w values args w') :
    Collects w w' := by
  induction h with
  | nil => exact .nil
  | cons h _ ih => exact h.collects.trans ih

theorem Spreads.collects {group : Group} (h : Spreads kind w group args w') : Collects w w' := by
  cases h with
  | each h => exact h.collects
  | whole h => exact h.collects
  | items h _ hargs => exact h.collects.trans (Delivers.collects.go hargs)

theorem NamesTypes.collects {values : List Operand} {names : List String}
    (h : NamesTypes w values names w') : Collects w w' := by
  induction h with
  | nil => exact .nil
  | cons h _ _ ih => exact h.collects.trans ih

theorem Prepares.collects {op : Operation} {d : TxCommand} (h : Prepares w op d w') :
    Collects w w' := by
  cases h with
  | splitCoins _ hcoin hamounts => exact hcoin.collects.trans hamounts.collects
  | mergeCoins hdestination hsources => exact hdestination.collects.trans hsources.collects
  | transferObjects hobjects hrecipient => exact hobjects.collects.trans hrecipient.collects
  | makeMoveVec _ helems => exact helems.collects
  | moveCall _ _ _ _ htypes hargs => exact htypes.collects.trans hargs.collects
  | publish => exact .nil
  | upgrade _ _ _ _ hticket => exact hticket.collects

end

structure Grows (w w' : Draft) : Prop where
  inputs : w.inputs <+: w'.inputs
  commands : w.commands <+: w'.commands
  env : w'.env = w.env

section

variable {w w' w'' : Draft}

namespace Grows

theorem refl (w : Draft) : Grows w w :=
  ⟨List.prefix_refl _, List.prefix_refl _, rfl⟩

theorem addInput (h : Grows w w') (input : TxInput) : Grows w (w'.addInput input) :=
  ⟨h.inputs.trans (inputs_addInput input ▸ List.prefix_append _ _), h.commands, h.env⟩

theorem addCommand (h : Grows w w') (d : TxCommand) : Grows w (w'.addCommand d) :=
  ⟨h.inputs, h.commands.trans (commands_addCommand d ▸ List.prefix_append _ _), h.env⟩

end Grows

theorem Collects.grows (h : Collects w w') : Grows w w' := by
  induction h with
  | nil => exact .refl w
  | object _ id _ ih => exact ih.addInput (.object id)
  | @pure _ _ _ _ found _ _ _ _ ih =>
    have hgrows := ih.addInput (.pure found.type found.bytes)
    exact ⟨hgrows.inputs, hgrows.commands, hgrows.env⟩
  | vector _ elem args ih => exact ih.addCommand (.makeMoveVec elem args)

end

/-! ## Results -/

def resultsAt (position : Nat) : Operation → List TxArg
  | .splitCoins _ amounts _ => results (UInt16.ofNat position) amounts.length
  | .moveCall _ _ _ _ _ out => results (UInt16.ofNat position) out.length
  | .makeMoveVec .. | .publish .. | .upgrade .. => [.result (UInt16.ofNat position)]
  | .mergeCoins .. | .transferObjects .. => []

abbrev Walk.named (w : Draft) (names : List String) (args : List TxArg) : Draft :=
  { w with env := bindEnv names args w.env }

/-- The operation gathers its operands, adds a command to the draft `w₁` and names the results. -/
structure OperationStep (w : Draft) (op : Operation) (d : TxCommand) (w₁ w' : Draft) : Prop where
  prepares : Prepares w op d w₁
  room : w₁.commands.length < Limited.limit
  few : (resultsAt w₁.commands.length op).length < Limited.limit
  named : w' = (w₁.addCommand d).named op.outputs (resultsAt w₁.commands.length op)

theorem OperationStep.result {w w₁ w' : Draft} {op : Operation} {d : TxCommand}
    (h : OperationStep w op d w₁ w') {i : Nat} {arg : TxArg}
    (harg : (resultsAt w₁.commands.length op)[i]? = some arg) :
    arg = d.resultAt w₁.commands.length i ∧ i < d.resultCount := by
  obtain ⟨hprepares, -, hfew, -⟩ := h
  have hnested {count : Nat} (hd : d.isSingle = false)
      (harg : (results (UInt16.ofNat w₁.commands.length) count)[i]? = some arg) :
      arg = d.resultAt w₁.commands.length i ∧ i < count := by
    have hi : i < count := by simpa [results] using lt_of_getElem? harg
    refine ⟨?_, hi⟩
    rw [TxCommand.resultAt, if_neg (by simp [hd])]
    simpa [results, hi] using harg.symm
  have hsingle (hd : d.isSingle = true)
      (harg : [TxArg.result (UInt16.ofNat w₁.commands.length)][i]? = some arg) :
      arg = d.resultAt w₁.commands.length i ∧ i < 1 := by
    rw [TxCommand.resultAt, if_pos hd]
    exact ⟨List.mem_singleton.mp (List.mem_of_getElem? harg), by simpa using lt_of_getElem? harg⟩
  cases hprepares with
  | splitCoins _ _ hamounts =>
    obtain ⟨heq, hi⟩ := hnested rfl harg
    refine ⟨heq, ?_⟩
    rwa [TxCommand.resultCount, hamounts.length_eq, List.length_map]
  | moveCall =>
    obtain ⟨heq, hi⟩ := hnested rfl harg
    simp only [resultsAt, results, List.length_map, List.length_range] at hfew
    exact ⟨heq, Nat.lt_of_lt_of_le hi (Nat.le_pred_of_lt hfew)⟩
  | makeMoveVec => exact hsingle rfl harg
  | publish => exact hsingle rfl harg
  | upgrade => exact hsingle rfl harg
  | mergeCoins => cases harg
  | transferObjects => cases harg

section

variable {w : Draft}

variable {c : Context Builder TxArg}

/-- A command that is appended to a draft with all its operands, and whose results are named, ends
the operation. -/
theorem append_ensures {op : Operation} {d : TxCommand} {w₁ : Draft} (hprepares : Prepares w op d w₁)
    {α : Type} {x : BuilderM α} {count : Nat} {answer : UInt16 → α} (hx : Appends x d count answer)
    (hcount : ∀ n, (resultsAt n op).length = count) {name : α → WalkM Builder TxArg Unit}
    (hname : ∀ n w, (name (answer (UInt16.ofNat n))).run w =
      .ok ((), w.named op.outputs (resultsAt n op)))
    {f : Builder → Except Refusal (α × Builder)} (hf : f = asTarget x) :
    Ensures (fun _ => True) w₁ (c.call f >>= name) fun _ w' => ∃ d w₁, OperationStep w op d w₁ w' := by
  have hcall : Ensures (fun _ => True) w₁ (c.call f) fun a w' =>
      count < Limited.limit ∧ w₁.commands.length < Limited.limit ∧
        a = answer (UInt16.ofNat w₁.commands.length) ∧ w' = w₁.addCommand d := by
    refine call_ensures c fun a b h => ?_
    obtain ⟨hfew, hroom, rfl, rfl⟩ := hx.eq_ok (hf ▸ h)
    exact ⟨hfew, hroom, rfl, rfl⟩
  refine .bind hcall ?_
  rintro _ _ ⟨hfew, hroom, rfl, rfl⟩
  rw [Ensures, hname]
  exact .ok ⟨d, w₁, hprepares, hroom, (hcount _).trans_lt hfew, rfl⟩

/-- **One operation adds one command**, after the vectors that it needs. -/
theorem operation_ensures (hc : c.target = Builder.target) (op : Operation) (w : Draft) :
    Ensures (fun _ => True) w (c.operation op) fun _ w' => ∃ d w₁, OperationStep w op d w₁ w' := by
  cases op with
  | splitCoins coin amounts out =>
    refine .bind (handle_ensures hc _ coin w) fun arg w₁ hcoin => ?_
    refine .bind (arguments_ensures hc _ 0 _ w₁) fun args w₂ hamounts => ?_
    have hlength : args.length = amounts.length := hamounts.length_eq.trans (List.length_map _)
    exact append_ensures (.splitCoins out hcoin hamounts) (appends_pushWithResults _ _)
      (fun _ => length_results _ _) (fun _ => run_bindAll _ _) (by rw [hc, ← hlength]; rfl)
  | mergeCoins destination sources =>
    refine .bind (handle_ensures hc _ destination w) fun arg w₁ hdestination => ?_
    refine .bind (spread_ensures hc _ _ sources w₁) fun args w₂ hsources => ?_
    rw [← bind_pure (c.call _)]
    exact append_ensures (.mergeCoins hdestination hsources) (appends_pushOnly _)
      (fun _ => rfl) (fun _ _ => rfl) (by rw [hc]; rfl)
  | transferObjects objects recipient =>
    refine .bind (spread_ensures hc _ _ objects w) fun args w₁ hobjects => ?_
    refine .bind (argument_ensures hc _ _ recipient w₁) fun arg w₂ hrecipient => ?_
    rw [← bind_pure (c.call _)]
    exact append_ensures (.transferObjects hobjects hrecipient) (appends_pushOnly _)
      (fun _ => rfl) (fun _ _ => rfl) (by rw [hc]; rfl)
  | makeMoveVec elem elems out =>
    refine .bind (spread_ensures hc _ _ elems w) fun args w₁ helems => ?_
    exact append_ensures (.makeMoveVec out helems) (appends_pushWithResult _)
      (fun _ => rfl) (fun _ _ => rfl) (by rw [hc]; rfl)
  | moveCall package module function typeArgs values out =>
    refine .bind (typeNames_ensures hc 0 typeArgs w) fun names w₁ htypes => ?_
    refine .bind (arguments_ensures hc _ 0 values w₁) fun args w₂ hargs => ?_
    exact append_ensures (.moveCall package module function out htypes hargs)
      (appends_pushWithResults _ _) (fun _ => length_results _ _)
      (fun _ => run_bindAll _ _) (by rw [hc]; rfl)
  | publish modules dependencies out =>
    exact append_ensures (.publish modules dependencies out) (appends_pushWithResult _)
      (fun _ => rfl) (fun _ _ => rfl) (by rw [hc]; rfl)
  | upgrade modules dependencies package ticket out =>
    refine .bind (handle_ensures hc _ ticket w) fun arg w₁ hticket => ?_
    exact append_ensures (.upgrade modules dependencies package out hticket)
      (appends_pushWithResult _) (fun _ => rfl) (fun _ _ => rfl) (by rw [hc]; rfl)

end

end TxGraph.Lowering
