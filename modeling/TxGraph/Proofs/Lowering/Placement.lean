import TxGraph.Proofs.Lowering.Tidy

/-!
# Where operations are placed

Lowering issues one command for each operation, and before it a vector for each list of handles that
has to be packed. So the command of an operation stands at a position that depends on all that was
packed before. `Placement` says of a map from operations to positions that it is the one by which
results are referred to. `Packed` says of a draft that nothing but vectors was added.
-/

namespace TxGraph

/-! ## References to results -/

/-- The argument is a result of the command at a position, in the form in which such an operation
gives its results. -/
def Operation.Gives (position nth : Nat) (arg : TxArg) : Operation → Prop
  | splitCoins .. | moveCall .. => ∃ j n, arg = .nested j n ∧ j.toNat = position ∧ n.toNat = nth
  | makeMoveVec .. | publish .. | upgrade .. => ∃ j, arg = .result j ∧ j.toNat = position
  | mergeCoins .. | transferObjects .. => False

/-- The argument is an input, or the coin that pays for the transaction. -/
def TxArg.IsGiven (arg : TxArg) : Prop :=
  arg = .gasCoin ∨ ∃ i, arg = .input i

section

variable (p : Program) (place : Nat → Nat) (commands : List TxCommand)

/-- If the name is that of an output, the argument is that result. -/
def TxArg.Denotes (name : String) (arg : TxArg) : Prop :=
  ∀ (j : Nat) (op : Operation) (nth : Nat), p.ops[j]? = some op → op.outputs[nth]? = some name →
    op.Gives (place j) nth arg

/-- The argument is what the operand is issued as. A vector in which a result occurs is the result
of a command that packs its items. -/
def Operand.Issued : Operand → TxArg → Prop
  | absent, _ => False
  | ref name, arg => arg.Denotes p place name
  | constant _, arg | integer _ _, arg => ∃ i, arg = .input i
  | object _, arg => arg.IsGiven
  | vector items, arg =>
    (∃ i, arg = .input i) ∧ (∀ name ∈ refs.allRefs items, ∀ op ∈ p.ops, name ∉ op.outputs) ∨
    ∃ j elem args, arg = .result j ∧ commands[j.toNat]? = some (.makeMoveVec elem args) ∧
      all items args
where
  all : List Operand → List TxArg → Prop
    | [], [] => True
    | item :: rest, arg :: args => item.Issued arg ∧ all rest args
    | _, _ => False

/-- The arguments are what the operands are issued as. A group that is one operand is issued whole,
or by its items if it is a vector. -/
inductive Group.Issued : Group → List TxArg → Prop
  | each {values : List Operand} {args : List TxArg}
    (h : List.Forall₂ (Operand.Issued p place commands) values args) : Issued (.each values) args
  | whole {value : Operand} {arg : TxArg} (h : value.Issued p place commands arg) :
    Issued (.packed value) [arg]
  | items {items : List Operand} {args : List TxArg}
    (h : List.Forall₂ (Operand.Issued p place commands) items args) :
    Issued (.packed (.vector items)) args
  | variable {name : String} {args : List TxArg} (h : ∀ op ∈ p.ops, name ∉ op.outputs) :
    Issued (.packed (.ref name)) args

def Operation.Issued : Operation → TxCommand → Prop
  | splitCoins coin amounts _, .splitCoins arg args =>
    coin.Issued p place commands arg ∧
      List.Forall₂ (Operand.Issued p place commands) amounts args
  | mergeCoins destination sources, .mergeCoins arg args =>
    destination.Issued p place commands arg ∧ sources.Issued p place commands args
  | transferObjects objects recipient, .transferObjects args arg =>
    objects.Issued p place commands args ∧ recipient.Issued p place commands arg
  | makeMoveVec elem elems _, .makeMoveVec elem' args =>
    elem' = elem ∧ elems.Issued p place commands args
  | moveCall package module function typeArgs values _, .moveCall package' module' function' _ args =>
    package' = package ∧ module' = module ∧ function' = function ∧
      (∀ value ∈ typeArgs, ∀ name ∈ value.refs, ∀ op ∈ p.ops, name ∉ op.outputs) ∧
      List.Forall₂ (Operand.Issued p place commands) (values.map Argument.value) args
  | publish modules dependencies _, .publish modules' dependencies' =>
    modules' = modules ∧ dependencies' = dependencies
  | upgrade modules dependencies package ticket _, .upgrade modules' dependencies' package' arg =>
    modules' = modules ∧ dependencies' = dependencies ∧ package' = package ∧
      ticket.Issued p place commands arg
  | _, _ => False

end

/-! ## Resolved values -/

namespace Lowering

variable {p : Program} {op : Operation} {w : Draft}

open Transaction (Builder)

section

variable (p : Program) (place : Nat → Nat) (commands : List TxCommand)

def Yields : Operand → Resolved TxArg → Prop
  | .absent, _ => False
  | .ref name, r => ∀ (j : Nat) (op : Operation) (nth : Nat), p.ops[j]? = some op →
    op.outputs[nth]? = some name → ∃ arg, r = .handle arg ∧ op.Gives (place j) nth arg
  | .constant k, r => r = .literal (constantLiteral k)
  | .integer width digits, r => r = .literal (.integer width digits)
  | .object _, r => ∃ arg, r = .handle arg ∧ arg.IsGiven
  | .vector items, r => ∃ rs, r = .vector rs ∧ all items rs
where
  all : List Operand → List (Resolved TxArg) → Prop
    | [], [] => True
    | item :: rest, r :: rs => Yields item r ∧ all rest rs
    | _, _ => False

def Becomes : Resolved TxArg → TxArg → Prop
  | .handle arg', arg => arg = arg'
  | .literal _, arg => ∃ i, arg = .input i
  | .list rs, arg => ∃ j elem args, arg = .result j ∧
    commands[j.toNat]? = some (.makeMoveVec elem args) ∧ all rs args
where
  all : List (Resolved TxArg) → List TxArg → Prop
    | [], [] => True
    | r :: rs, arg :: args => Becomes r arg ∧ all rs args
    | _, _ => False

end

section

variable {p : Program} {place : Nat → Nat} {commands : List TxCommand}

theorem issued_all_iff {items : List Operand} {args : List TxArg} :
    Operand.Issued.all p place commands items args ↔
      List.Forall₂ (Operand.Issued p place commands) items args := by
  induction items generalizing args with
  | nil => cases args <;> simp [Operand.Issued.all]
  | cons item items ih => cases args <;> simp [Operand.Issued.all, ih]

/-- No result occurs in what is resolved to a literal. -/
theorem Yields.no_result {v : Literal} : {value : Operand} →
    Yields p place value (.literal v) → ∀ name ∈ value.refs, ∀ op ∈ p.ops, name ∉ op.outputs
  | .absent, h => h.elim
  | .constant _, _ => nofun
  | .integer _ _, _ => nofun
  | .object _, _ => nofun
  | .ref name, h => by
    refine List.forall_mem_singleton.mpr fun op hop hname => ?_
    obtain ⟨j, hj⟩ := List.mem_iff_getElem?.mp hop
    obtain ⟨nth, hnth⟩ := List.mem_iff_getElem?.mp hname
    obtain ⟨arg, harg, -⟩ := h j op nth hj hnth
    cases harg
  | .vector items, h => by
    obtain ⟨rs, hvector, hitems⟩ := h
    unfold Resolved.vector at hvector
    split at hvector
    case h_1 vs hvs => exact go hitems (Resolved.literals?_eq_some hvs)
    case h_2 => cases hvector
where
  go : {items : List Operand} → {rs : List (Resolved TxArg)} → {vs : List Literal} →
      Yields.all p place items rs → rs = vs.map .literal →
      ∀ name ∈ Operand.refs.allRefs items, ∀ op ∈ p.ops, name ∉ op.outputs
    | [], _, _, _, _ => nofun
    | _ :: _, _, [], h, rfl => h.elim
    | _ :: _, _, _ :: _, h, rfl => List.forall_mem_append.mpr ⟨Yields.no_result h.1, go h.2 rfl⟩

/-- What an operand is resolved to is encoded as the operand is issued. -/
theorem Yields.issued : {value : Operand} → {r : Resolved TxArg} → {arg : TxArg} →
    Yields p place value r → Becomes commands r arg → value.Issued p place commands arg
  | .absent, _, _, h, _ => h.elim
  | .constant _, _, _, h, hbecomes => by
    subst h
    exact hbecomes
  | .integer _ _, _, _, h, hbecomes => by
    subst h
    exact hbecomes
  | .object _, _, _, ⟨_, hr, hgiven⟩, hbecomes => by
    subst hr
    cases hbecomes
    exact hgiven
  | .ref _, _, _, h, hbecomes => by
    intro j op nth hop hname
    obtain ⟨arg, rfl, hgives⟩ := h j op nth hop hname
    cases hbecomes
    exact hgives
  | .vector items, r, _, h, hbecomes => by
    have hall := h
    obtain ⟨rs, hvector, hitems⟩ := hall
    cases r with
    | literal v => exact .inl ⟨hbecomes, h.no_result⟩
    | handle arg =>
      unfold Resolved.vector at hvector
      split at hvector <;> cases hvector
    | list rs' =>
      have hsame : rs' = rs := by
        unfold Resolved.vector at hvector
        split at hvector <;> cases hvector
        rfl
      subst hsame
      obtain ⟨j, elem, args, harg, hcommand, hargs⟩ := hbecomes
      exact .inr ⟨j, elem, args, harg, hcommand, go hitems hargs⟩
where
  go : {items : List Operand} → {rs : List (Resolved TxArg)} → {args : List TxArg} →
      Yields.all p place items rs → Becomes.all commands rs args →
      Operand.Issued.all p place commands items args
    | [], [], [], _, _ => trivial
    | [], [], _ :: _, _, h => h.elim
    | [], _ :: _, _, h, _ => h.elim
    | _ :: _, [], _, h, _ => h.elim
    | _ :: _, _ :: _, [], _, h => h.elim
    | _ :: _, _ :: _, _ :: _, h, h' => ⟨h.1.issued h'.1, go h.2 h'.2⟩

/-- The items of one operand are issued as its items, if it is not a variable. -/
theorem Yields.group {value : Operand} {r : Resolved TxArg} {rs : List (Resolved TxArg)}
    {args : List TxArg} (h : Yields p place value r) (hlisted : Listed r rs)
    (hargs : Becomes.all commands rs args) : Group.Issued p place commands (.packed value) args := by
  cases value with
  | absent => exact h.elim
  | constant k =>
    cases h
    cases k <;> cases hlisted
  | integer =>
    cases h
    cases hlisted
  | object o =>
    obtain ⟨arg, rfl, -⟩ := h
    cases hlisted
  | ref name =>
    refine .variable fun op hop hname => ?_
    obtain ⟨j, hj⟩ := List.mem_iff_getElem?.mp hop
    obtain ⟨nth, hnth⟩ := List.mem_iff_getElem?.mp hname
    obtain ⟨arg, rfl, -⟩ := h j op nth hj hnth
    cases hlisted
  | vector items =>
    obtain ⟨rs', hvector, hitems⟩ := h
    have hsame : rs' = rs := by
      unfold Resolved.vector at hvector
      split at hvector
      case h_1 vs hvs =>
        subst hvector
        cases hlisted
        exact Resolved.literals?_eq_some hvs
      case h_2 =>
        subst hvector
        cases hlisted
        rfl
    subst hsame
    exact .items (issued_all_iff.mp (Yields.issued.go hitems hargs))

end

/-! ## Packing -/

/-- The names stand for what they should: results for results, and variables are no outputs. What
was encoded in this operation is an input. -/
structure Tied (p : Program) (place : Nat → Nat) (w : Draft) : Prop where
  bound (name : String) (arg : TxArg) : Directory.get? w.env name = some (.bound arg) →
    arg.Denotes p place name
  init (name : String) (value : Operand) : Directory.get? w.env name = some (.init value) →
    ∀ op ∈ p.ops, name ∉ op.outputs
  memo : ∀ e ∈ w.memo, ∃ i, e.2 = .input i

/-- Nothing but vectors was added, and the names stand for the same. -/
structure Packed (w w' : Draft) : Prop where
  env : w'.env = w.env
  vectors : ∃ vectors, w'.commands = w.commands ++ vectors ∧
    ∀ d ∈ vectors, d.kind? = some .makeMoveVec

section

variable {w w' w'' : Draft}

theorem Packed.of_commands (henv : w'.env = w.env) (h : w'.commands = w.commands) : Packed w w' :=
  ⟨henv, [], by rw [h, List.append_nil], nofun⟩

theorem Packed.refl (w : Draft) : Packed w w := .of_commands rfl rfl

theorem Packed.trans (h : Packed w w') (h' : Packed w' w'') : Packed w w'' := by
  obtain ⟨henv, vectors, hcommands, hvectors⟩ := h
  obtain ⟨henv', more, hcommands', hmore⟩ := h'
  exact ⟨henv'.trans henv, vectors ++ more, by rw [hcommands', hcommands, List.append_assoc],
    List.forall_mem_append.mpr ⟨hvectors, hmore⟩⟩

theorem Packed.commands (h : Packed w w') : w.commands <+: w'.commands := by
  obtain ⟨-, vectors, hcommands, -⟩ := h
  exact hcommands ▸ List.prefix_append _ _

end

section

variable {p : Program} {place : Nat → Nat} {w w' : Draft}

theorem Tied.with_target (h : Tied p place w) (b : Builder) : Tied p place { w with target := b } :=
  ⟨h.bound, h.init, h.memo⟩

theorem Collects.packed (h : Collects w w') : Packed w w' := by
  induction h with
  | nil => exact .refl w
  | object _ _ _ ih => exact ih.trans (.of_commands rfl rfl)
  | pure _ _ _ _ ih => exact ih.trans (.of_commands rfl rfl)
  | vector _ elem args ih =>
    exact ih.trans ⟨rfl, [_], commands_addCommand _, List.forall_mem_singleton.mpr rfl⟩

theorem Collects.tied (h : Collects w w') (hw : Tied p place w) : Tied p place w' := by
  induction h with
  | nil => exact hw
  | object _ _ _ ih => exact ih.with_target _
  | pure _ _ _ hmemo ih =>
    refine ⟨ih.bound, ih.init, fun e he => ?_⟩
    rcases hmemo e he with hold | ⟨-, hnew⟩
    · exact ih.memo e hold
    · exact ⟨_, hnew⟩
  | vector _ _ _ ih => exact ih.with_target _

/-! ## Operands -/

theorem Evaluates.yields {w w' : Draft} {value : Operand} {r : Resolved TxArg} :
    Evaluates w value r w' → Tied p place w → Yields p place value r
  | .constant _, _ | .integer _ _, _ => rfl
  | @Evaluates.object _ _ arg _ h, _ => by
    refine ⟨arg, rfl, ?_⟩
    cases h with
    | gas => exact .inl rfl
    | known _ => exact .inr ⟨_, rfl⟩
    | new _ _ _ => exact .inr ⟨_, rfl⟩
  | @Evaluates.bound _ name arg h, hw => fun j op nth hop hname =>
    ⟨arg, rfl, hw.bound name arg h j op nth hop hname⟩
  -- the name of a variable is no output, so nothing is asked of its value
  | @Evaluates.init _ _ name value _ h _ _, hw => fun _ op _ hop hname =>
    absurd (List.mem_of_getElem? hname) (hw.init name value h op (List.mem_of_getElem? hop))
  | @Evaluates.vector _ _ _ rs h, hw => ⟨rs, rfl, go h hw⟩
where
  go {w w' : Draft} {items : List Operand} {rs : List (Resolved TxArg)} :
      EvaluatesAll w items rs w' → Tied p place w → Yields.all p place items rs
    | .nil, _ => trivial
    | .cons h hrest, hw => ⟨h.yields hw, go hrest (h.collects.tied hw)⟩

variable {commands : List TxCommand}

theorem Delivers.becomes {kind : ParamKind} {symbol : Option String} {w w' : Draft}
    {r : Resolved TxArg} {arg : TxArg} : Delivers kind symbol w r arg w' → Tied p place w →
      w'.commands <+: commands → Becomes commands r arg
  | .handle _, _, _ => rfl
  | .literal h, hw, _ => by
    cases h with
    | again _ h => exact hw.memo _ h
    | anew => exact ⟨_, rfl⟩
  | @Delivers.list _ _ _ w₁ _ args h hroom, hw, hfront => by
    have hadded := commands_addCommand (w := w₁)
      (.makeMoveVec (Context.elemKind kind).pureType? args)
    refine ⟨_, (Context.elemKind kind).pureType?, args, rfl, getElem?_mono hfront ?_,
      go h hw (.trans ?_ hfront)⟩
    · rw [hadded, toNat_index hroom, List.getElem?_concat_length]
    · exact hadded ▸ List.prefix_append _ _
where
  go {kind : ParamKind} {w w' : Draft} {items : List (Resolved TxArg)} {args : List TxArg} :
      DeliversAll kind w items args w' → Tied p place w → w'.commands <+: commands →
        Becomes.all commands items args
    | .nil, _, _ => trivial
    | .cons h hrest, hw, hfront =>
      ⟨h.becomes hw ((Delivers.collects.go hrest).packed.commands.trans hfront),
        go hrest (h.collects.tied hw) hfront⟩

variable {kind : ParamKind} {args : List TxArg}

theorem Gives.issued {value : Operand} {arg : TxArg} (h : Gives kind w value arg w')
    (hw : Tied p place w) (hfront : w'.commands <+: commands) :
    value.Issued p place commands arg := by
  obtain ⟨r, w₁, hr, harg⟩ := h
  exact (hr.yields hw).issued (harg.becomes (hr.collects.tied hw) hfront)

theorem GivesAll.issued {values : List Argument} (h : GivesAll w values args w')
    (hw : Tied p place w) (hfront : w'.commands <+: commands) :
    List.Forall₂ (Operand.Issued p place commands) (values.map Argument.value) args := by
  induction h with
  | nil => exact .nil
  | cons h hrest ih =>
    exact .cons (h.issued hw (hrest.collects.packed.commands.trans hfront))
      (ih (h.collects.tied hw) hfront)

theorem map_value (kind : ParamKind) (values : List Operand) :
    (values.map fun v => (⟨v, kind⟩ : Argument)).map Argument.value = values := by
  rw [List.map_map, Function.comp_def, List.map_id']

theorem Spreads.issued {group : Group} (h : Spreads kind w group args w') (hw : Tied p place w)
    (hfront : w'.commands <+: commands) : group.Issued p place commands args := by
  cases h with
  | @each values _ _ h => exact .each (map_value kind values ▸ h.issued hw hfront)
  | whole h => exact .whole ((h.yields hw).issued rfl)
  | items h hlisted hargs =>
    exact (h.yields hw).group hlisted (Delivers.becomes.go hargs (h.collects.tied hw) hfront)

/-- A type argument is a text, so it is no result. -/
theorem NamesTypes.no_result {values : List Operand} {names : List String}
    (h : NamesTypes w values names w') (hw : Tied p place w) :
    ∀ value ∈ values, ∀ name ∈ value.refs, ∀ op ∈ p.ops, name ∉ op.outputs := by
  induction h with
  | nil => exact nofun
  | cons h _ _ ih =>
    exact List.forall_mem_cons.mpr ⟨(h.yields hw).no_result, ih (h.collects.tied hw)⟩

theorem Prepares.issued {op : Operation} {d : TxCommand} (h : Prepares w op d w')
    (hw : Tied p place w) (hfront : w'.commands <+: commands) : op.Issued p place commands d := by
  cases h with
  | @splitCoins _ amounts _ _ _ _ _ hcoin hamounts =>
    have hissued := hamounts.issued (hcoin.collects.tied hw) hfront
    exact ⟨(hcoin.yields hw).issued rfl, map_value _ amounts ▸ hissued⟩
  | mergeCoins hdestination hsources =>
    exact ⟨(hdestination.yields hw).issued rfl,
      hsources.issued (hdestination.collects.tied hw) hfront⟩
  | transferObjects hobjects hrecipient =>
    exact ⟨hobjects.issued hw (hrecipient.collects.packed.commands.trans hfront),
      hrecipient.issued (hobjects.collects.tied hw) hfront⟩
  | makeMoveVec _ helems => exact ⟨rfl, helems.issued hw hfront⟩
  | moveCall _ _ _ _ htypes hargs =>
    exact ⟨rfl, rfl, rfl, htypes.no_result hw, hargs.issued (htypes.collects.tied hw) hfront⟩
  | publish => exact ⟨rfl, rfl⟩
  | upgrade _ _ _ _ hticket => exact ⟨rfl, rfl, rfl, (hticket.yields hw).issued rfl⟩

end

/-! ## Operations -/

/-- A name is that of one output only. -/
theorem output_unique (hdistinct : p.symbols.Nodup) {j k m n : Nat} {other : Operation}
    {name : String} (hj : p.ops[j]? = some op) (hm : op.outputs[m]? = some name)
    (hk : p.ops[k]? = some other) (hn : other.outputs[n]? = some name) : j = k ∧ m = n := by
  obtain ⟨-, hops, -⟩ := List.nodup_append.mp hdistinct
  obtain ⟨hown, hpairs⟩ := List.nodup_flatMap.mp hops
  have hsame : j = k := by
    obtain ⟨hlt, rfl⟩ := List.getElem?_eq_some_iff.mp hj
    obtain ⟨hlt', rfl⟩ := List.getElem?_eq_some_iff.mp hk
    have hmem := List.mem_of_getElem? hm
    have hmem' := List.mem_of_getElem? hn
    rcases Nat.lt_trichotomy j k with hlt'' | heq | hlt''
    · exact (List.pairwise_iff_getElem.mp hpairs j k hlt hlt' hlt'' hmem hmem').elim
    · exact heq
    · exact (List.pairwise_iff_getElem.mp hpairs k j hlt' hlt hlt'' hmem' hmem).elim
  subst hsame
  cases hj.symm.trans hk
  refine ⟨rfl, ?_⟩
  exact (List.getElem?_inj (lt_of_getElem? hm) (hown op (List.mem_of_getElem? hj))).mp
    (hm.trans hn.symm)

/-- The operation added vectors and then its own command. -/
def Placed (p : Program) (place : Nat → Nat) (commands : List TxCommand) (op : Operation)
    (w w' : Draft) : Prop :=
  ∃ vectors d, w'.commands = w.commands ++ vectors ++ [d] ∧
    (∀ v ∈ vectors, v.kind? = some .makeMoveVec) ∧
    (w'.commands <+: commands → op.Issued p place commands d)

theorem OperationStep.gives {w₁ w' : Draft} {d : TxCommand} (h : OperationStep w op d w₁ w')
    {i : Nat} {arg : TxArg} (harg : (resultsAt w₁.commands.length op)[i]? = some arg) :
    op.Gives w₁.commands.length i arg := by
  obtain ⟨rfl, -⟩ := h.result harg
  have hplace := toNat_index h.room
  have hindex := toNat_index ((lt_of_getElem? harg).trans h.few)
  cases h.prepares with
  | splitCoins => exact ⟨_, _, rfl, hplace, hindex⟩
  | moveCall => exact ⟨_, _, rfl, hplace, hindex⟩
  | makeMoveVec => exact ⟨_, rfl, hplace⟩
  | publish => exact ⟨_, rfl, hplace⟩
  | upgrade => exact ⟨_, rfl, hplace⟩
  | mergeCoins => cases harg
  | transferObjects => cases harg

/-- **One operation issues one command**, after the vectors that it needs. -/
theorem operation_placed {place : Nat → Nat} (commands : List TxCommand)
    (hdistinct : p.symbols.Nodup) {c : Context Builder TxArg} (hc : c.target = Builder.target)
    {k : Nat} (hop : p.ops[k]? = some op) (hw : Tied p place w) :
    Ensures (fun _ => True) w (c.operation op) fun _ w' =>
      Placed p place commands op w w' ∧ (place k + 1 = w'.commands.length → Tied p place w') := by
  refine (operation_ensures hc op w).mono fun _ w' ⟨d, w₁, h⟩ => ?_
  have hw₁ := h.prepares.collects.tied hw
  have hcommands : w'.commands = w₁.commands ++ [d] := by
    rw [h.named]
    exact commands_addCommand d
  refine ⟨?_, fun hplace => ⟨fun name arg hname => ?_, fun name value hname => ?_, ?_⟩⟩
  · obtain ⟨-, vectors, hvectors, hall⟩ := h.prepares.collects.packed
    refine ⟨vectors, d, by rw [hcommands, hvectors], hall, fun hfront => h.prepares.issued hw ?_⟩
    exact (hcommands ▸ List.prefix_append _ _ : w₁.commands <+: w'.commands).trans hfront
  · rw [h.named] at hname
    rcases get?_bindEnv hname with hold | ⟨i, arg', houtput, hresult, hbound⟩
    · exact hw₁.bound name arg hold
    · cases hbound
      have hlast : w₁.commands.length = place k := by
        rw [hcommands, List.length_append, List.length_singleton] at hplace
        omega
      intro j other nth hother hnth
      obtain ⟨rfl, rfl⟩ := output_unique hdistinct hop houtput hother hnth
      cases hop.symm.trans hother
      exact hlast ▸ h.gives hresult
  · rw [h.named] at hname
    rcases get?_bindEnv hname with hold | ⟨i, arg', -, -, hbound⟩
    · exact hw₁.init name value hold
    · cases hbound
  · rw [h.named]
    exact hw₁.memo

/-! ## Programs -/

theorem operations_append {σ η : Type} (target : Target σ η) (sender : Option String) (depth : Nat)
    (front rest : List Operation) (i : Nat) :
    operations target sender depth i (front ++ rest) =
      operations target sender depth i front >>= fun _ =>
        operations target sender depth (i + front.length) rest := by
  induction front generalizing i with
  | nil => simp [operations]
  | cons op front ih =>
    have hlength : i + (op :: front).length = i + 1 + front.length := by
      rw [List.length_cons]
      omega
    simp only [List.cons_append, operations, ih, hlength, bind_assoc]

/-- The draft before each operation. -/
structure Stages (p : Program) (sender : Option String) (ws : Nat → Draft) : Prop where
  distinct : p.symbols.Nodup
  run (k : Nat) : (operations Builder.target sender p.vars.length 0 (p.ops.take k)).run
    ⟨Builder.empty, initialEnv p.vars, []⟩ = .ok ((), ws k)

theorem exists_stages (hdistinct : p.symbols.Nodup) {sender : Option String}
    (h : (operations Builder.target sender p.vars.length 0 p.ops).run
      ⟨Builder.empty, initialEnv p.vars, []⟩ = .ok ((), w)) :
    ∃ ws, Stages p sender ws ∧ ws p.ops.length = w := by
  have hfront (k : Nat) : ∃ w', (operations Builder.target sender p.vars.length 0
      (p.ops.take k)).run ⟨Builder.empty, initialEnv p.vars, []⟩ = .ok ((), w') := by
    rw [← List.take_append_drop k p.ops, operations_append] at h
    obtain ⟨⟨⟨⟩, w'⟩, hrun, -⟩ := bind_eq_ok.mp h
    exact ⟨w', hrun⟩
  choose ws hws using hfront
  refine ⟨ws, ⟨hdistinct, hws⟩, ?_⟩
  have hlast := hws p.ops.length
  rw [List.take_length, h] at hlast
  cases hlast
  rfl

namespace Stages

variable {p : Program} {sender : Option String} {ws : Nat → Draft}
  (h : Stages p sender ws)

include h

theorem start : ws 0 = ⟨Builder.empty, initialEnv p.vars, []⟩ := by
  have hnone := h.run 0
  exact (Prod.mk.inj (Except.ok.inj hnone)).2.symm

theorem step {k : Nat} {op : Operation} (hop : p.ops[k]? = some op) :
    ((Context.mk Builder.target ⟨k, op.kind⟩ sender p.vars.length).operation op).run
      { ws k with memo := [] } = .ok ((), ws (k + 1)) := by
  have hrun := h.run (k + 1)
  have hlength : (p.ops.take k).length = k := by
    rw [List.length_take, Nat.min_eq_left (Nat.le_of_lt (lt_of_getElem? hop))]
  rw [List.take_add_one, hop, Option.toList_some, operations_append, StateT.run_bind, h.run k,
    hlength, Nat.zero_add] at hrun
  have hlast : ((Context.mk Builder.target ⟨k, op.kind⟩ sender p.vars.length).operation op >>=
      fun _ => operations Builder.target sender p.vars.length (k + 1) []).run
      { ws k with memo := [] } = .ok ((), ws (k + 1)) := hrun
  obtain ⟨⟨⟨⟩, w⟩, hfirst, hnone⟩ := bind_eq_ok.mp hlast
  rw [← (Prod.mk.inj (Except.ok.inj hnone)).2]
  exact hfirst

theorem exists_place : ∃ place : Nat → Nat, ∀ commands k, k ≤ p.ops.length →
    Tied p place (ws k) ∧ ∀ op, p.ops[k]? = some op →
      Placed p place commands op (ws k) (ws (k + 1)) ∧ place k + 1 = (ws (k + 1)).commands.length := by
  refine ⟨fun k => (ws (k + 1)).commands.length - 1, fun commands k hk => ?_⟩
  have hstep (k : Nat) (op : Operation) (hop : p.ops[k]? = some op)
      (hw : Tied p (fun k => (ws (k + 1)).commands.length - 1) (ws k)) :
      Placed p (fun k => (ws (k + 1)).commands.length - 1) commands op (ws k) (ws (k + 1)) ∧
      (ws (k + 1)).commands.length - 1 + 1 = (ws (k + 1)).commands.length ∧
      Tied p (fun k => (ws (k + 1)).commands.length - 1) (ws (k + 1)) := by
    have hcleared : Tied p (fun k => (ws (k + 1)).commands.length - 1) { ws k with memo := [] } :=
      ⟨hw.bound, hw.init, nofun⟩
    obtain ⟨hplaced, htied⟩ := (operation_placed commands h.distinct rfl hop hcleared).of_run
      (h.step hop)
    have hlast : (ws (k + 1)).commands.length - 1 + 1 = (ws (k + 1)).commands.length := by
      obtain ⟨vectors, d, hcommands, -⟩ := hplaced
      rw [hcommands, List.length_append, List.length_singleton]
      omega
    exact ⟨hplaced, hlast, htied hlast⟩
  have htied : Tied p (fun k => (ws (k + 1)).commands.length - 1) (ws k) := by
    induction k with
    | zero =>
      rw [h.start]
      refine ⟨fun name arg hname => ?_, fun name value hname op hop hout => ?_, nofun⟩
      · obtain ⟨v, -, -, hentry⟩ := init_of_initialEnv hname
        cases hentry
      · obtain ⟨v, hv, rfl, -⟩ := init_of_initialEnv hname
        obtain ⟨-, -, hdisjoint⟩ := List.nodup_append.mp h.distinct
        exact hdisjoint _ (List.mem_map_of_mem hv) _ (List.mem_flatMap.mpr ⟨op, hop, hout⟩) rfl
    | succ k ih =>
      have hop := List.getElem?_eq_getElem (Nat.lt_of_succ_le hk)
      exact (hstep k _ hop (ih (Nat.le_of_succ_le hk))).2.2
  refine ⟨htied, fun op hop => ?_⟩
  obtain ⟨hplaced, hlast, -⟩ := hstep k op hop htied
  exact ⟨hplaced, hlast⟩

end Stages

structure Places (p : Program) (place : Nat → Nat) (commands : List TxCommand)
    (ws : Nat → Draft) : Prop where
  none : (ws 0).commands = []
  all : (ws p.ops.length).commands = commands
  step (k : Nat) (op : Operation) : p.ops[k]? = some op →
    Placed p place commands op (ws k) (ws (k + 1)) ∧ place k + 1 = (ws (k + 1)).commands.length

namespace Places

variable {p : Program} {place : Nat → Nat} {commands : List TxCommand}
  {ws : Nat → Draft} (h : Places p place commands ws) {j k : Nat}

include h

theorem grow (hk : k < p.ops.length) : (ws k).commands <+: (ws (k + 1)).commands ∧
    (ws k).commands.length ≤ place k ∧ place k + 1 = (ws (k + 1)).commands.length := by
  obtain ⟨⟨vectors, d, hadded, -⟩, hlast⟩ := h.step k _ (List.getElem?_eq_getElem hk)
  refine ⟨?_, ?_, hlast⟩
  · rw [hadded, List.append_assoc]
    exact List.prefix_append _ _
  · rw [hadded, List.length_append, List.length_append, List.length_singleton] at hlast
    omega

theorem mono (hjk : j ≤ k) (hk : k ≤ p.ops.length) : (ws j).commands <+: (ws k).commands := by
  induction k, hjk using Nat.le_induction with
  | base => exact List.prefix_refl _
  | succ k hjk ih => exact (ih (Nat.le_of_succ_le hk)).trans (h.grow hk).1

theorem front (hk : k ≤ p.ops.length) : (ws k).commands <+: commands :=
  h.all ▸ h.mono hk (Nat.le_refl _)

theorem below (hjk : j < k) (hk : k ≤ p.ops.length) : place j < (ws k).commands.length := by
  have hlast := (h.grow (hjk.trans_le hk)).2.2
  have hle := (h.mono (Nat.succ_le_of_lt hjk) hk).length_le
  rw [Nat.succ_eq_add_one] at hle
  omega

theorem command {op : Operation} (hop : p.ops[k]? = some op) :
    ∃ d, commands[place k]? = some d ∧ op.Issued p place commands d := by
  obtain ⟨⟨vectors, d, hadded, -, hissued⟩, hlast⟩ := h.step k op hop
  have hfront := h.front (Nat.succ_le_of_lt (lt_of_getElem? hop))
  have hd : (ws (k + 1)).commands[place k]? = some d := by
    rw [hadded, List.length_append, List.length_singleton] at hlast
    rw [hadded, Nat.succ.inj hlast, List.getElem?_concat_length]
  exact ⟨d, getElem?_mono hfront hd, hissued hfront⟩

/-- At any other position is a vector of the operation that comes next. -/
theorem vector {n : Nat} {d : TxCommand} (hn : commands[n]? = some d)
    (hothers : ∀ k < p.ops.length, place k ≠ n) :
    d.kind? = some .makeMoveVec ∧ ∃ k < p.ops.length, n < place k ∧ ∀ j < k, place j < n := by
  -- the first stage with more than `n` commands is the one after that operation
  have hall : n < (ws p.ops.length).commands.length := h.all ▸ lt_of_getElem? hn
  have hmore : ∃ k, n < (ws k).commands.length := ⟨_, hall⟩
  have hfound := Nat.find_spec hmore
  have hle : Nat.find hmore ≤ p.ops.length := Nat.find_min' hmore hall
  obtain ⟨k, hk⟩ : ∃ k, Nat.find hmore = k + 1 := by
    refine Nat.exists_eq_add_one_of_ne_zero fun hzero => ?_
    rw [hzero, h.none] at hfound
    exact Nat.not_lt_zero n hfound
  have hnot : (ws k).commands.length ≤ n :=
    Nat.le_of_not_lt (Nat.find_min hmore (hk ▸ Nat.lt_succ_self k))
  rw [hk] at hfound hle
  obtain ⟨⟨vectors, d', hadded, hvectors, -⟩, hlast⟩ := h.step k _ (List.getElem?_eq_getElem hle)
  have hbefore : n < place k := by
    have := hothers k hle
    omega
  have hd : (ws (k + 1)).commands[n]? = some d := by
    rw [← hn, List.getElem?_eq_getElem hfound]
    exact ((List.prefix_iff_getElem?.mp (h.front hle)) n hfound).symm
  have hmem : d ∈ vectors := by
    rw [hadded, List.length_append, List.length_singleton] at hlast
    rw [hadded, List.getElem?_append_left (by omega), List.getElem?_append_right hnot] at hd
    exact List.mem_of_getElem? hd
  exact ⟨hvectors d hmem, k, hle, hbefore,
    fun j hj => (h.below hj (Nat.le_of_lt hle)).trans_le hnot⟩

end Places

end Lowering

/-! ## Placements -/

theorem Operation.Issued.kind {p : Program} {place : Nat → Nat} {commands : List TxCommand}
    {op : Operation} {c : TxCommand} (h : op.Issued p place commands c) : c.kind? = some op.kind := by
  cases op <;> cases c <;> first | rfl | exact h.elim

namespace Transaction

/-- A map from the operations of a program to the positions of their commands. -/
structure Placement (p : Program) (options : ExecOptions) (t : Transaction) (place : Nat → Nat) :
    Prop where
  increasing {j k : Nat} : j < k → k < p.ops.length → place j < place k
  issued (k : Nat) (op : Operation) : p.ops[k]? = some op →
    ∃ c, t.commands[place k]? = some c ∧ c.kind? = some op.kind ∧ op.Issued p place t.commands c
  /-- Up to the command of an operation, the commands are those of the operations up to it. -/
  front (k : Nat) : k < p.ops.length →
    ∃ t', ofProgram ⟨p.vars, p.ops.take (k + 1)⟩ options = .ok t' ∧
      t'.commands = t.commands.take (place k + 1)
  /-- Any other command is a vector, between the commands of an operation and of the one before. By
  `front` it is that operation that needs it. -/
  packed (n : Nat) (c : TxCommand) : t.commands[n]? = some c → (∀ k < p.ops.length, place k ≠ n) →
    c.kind? = some .makeMoveVec ∧ ∃ k < p.ops.length, n < place k ∧ ∀ j < k, place j < n

theorem usesSender_take {p : Program} {k : Nat}
    (h : Program.usesSender ⟨p.vars, p.ops.take k⟩ = true) : p.usesSender = true := by
  rw [Program.usesSender, Bool.or_eq_true] at h ⊢
  refine h.imp_right fun hany => ?_
  obtain ⟨value, hvalue, hsender⟩ := List.any_eq_true.mp hany
  obtain ⟨op, hop, hmem⟩ := List.mem_flatMap.mp hvalue
  exact List.any_eq_true.mpr
    ⟨value, List.mem_flatMap.mpr ⟨op, List.mem_of_mem_take hop, hmem⟩, hsender⟩

/-- **Result references survive implicit packing.** Whatever is packed on the way, each operation has
its command at a position of its own, and every reference to an output is issued as a result of the
command at the position of its operation. -/
theorem exists_placement {p : Program} {options : ExecOptions} {t : Transaction}
    (hdistinct : p.symbols.Nodup) (h : ofProgram p options = .ok t) :
    ∃ place, Placement p options t place := by
  obtain ⟨w, hwalk, ⟨b, hconfigure, -⟩, -, hcommands⟩ := exists_walk_of_ofProgram h
  obtain ⟨ws, hstages, rfl⟩ := Lowering.exists_stages hdistinct hwalk
  obtain ⟨place, hplace⟩ := hstages.exists_place
  have hplaces : Lowering.Places p place t.commands ws :=
    ⟨by rw [hstages.start]; rfl, hcommands.symm,
      fun k op hop => (hplace t.commands k (Nat.le_of_lt (lt_of_getElem? hop))).2 op hop⟩
  refine ⟨place, fun hjk hk => ?_, fun k op hop => ?_, fun k hk => ?_, fun n c => hplaces.vector⟩
  · exact (hplaces.below hjk (Nat.le_of_lt hk)).trans_le (hplaces.grow hk).2.1
  · obtain ⟨d, hd, hissued⟩ := hplaces.command hop
    exact ⟨d, hd, hissued.kind, hissued⟩
  · have hsender : (options.sender.isNone && Program.usesSender ⟨p.vars, p.ops.take (k + 1)⟩) =
        false := by
      unfold ofProgram at h
      split at h
      · cases h
      case isFalse hset =>
        rw [Bool.eq_false_iff]
        intro huses
        obtain ⟨hnone, huses⟩ := Bool.and_eq_true_iff.mp huses
        exact hset (Bool.and_eq_true_iff.mpr ⟨hnone, usesSender_take huses⟩)
    -- whether options can be set does not depend on what was built
    obtain ⟨sender, hset, -⟩ := Builder.configure_eq_ok.mp hconfigure
    obtain ⟨b', hconfigured⟩ : ∃ b', (ws (k + 1)).target.configure options = .ok b' :=
      ⟨_, Builder.configure_eq_ok.mpr ⟨sender, hset, rfl⟩⟩
    have hrun : Lowering.run Builder.target options.sender ⟨p.vars, p.ops.take (k + 1)⟩
        Builder.empty = .ok (ws (k + 1)).target :=
      bind_eq_ok.mpr ⟨_, hstages.run (k + 1), rfl⟩
    refine ⟨b'.build, ?_, ?_⟩
    · rw [ofProgram, hsender, if_neg Bool.false_ne_true]
      exact bind_eq_ok.mpr ⟨_, hrun, bind_eq_ok.mpr ⟨_, hconfigured, rfl⟩⟩
    · rw [(hplaces.grow hk).2.2, ← List.prefix_iff_eq_take.mp (hplaces.front hk)]
      exact congrArg Array.toList (Builder.configure_keeps hconfigured).2

/-- Coins that are packed for a call between a split and a transfer. -/
def packedForCall : Program where
  vars := [⟨"amount", .integer .u64 "5"⟩]
  ops := [.splitCoins (.object .gas) [.ref "amount", .ref "amount"] ["left", "right"],
    .moveCall "0x2" "pay" "join" []
      [⟨.vector [.ref "right", .ref "left"], .vector .handle⟩] ["joined"],
    .transferObjects (.each [.ref "joined"]) (.constant (.address "0x1"))]

theorem exists_placement_packedForCall :
    ∃ t place, packedForCall.symbols.Nodup ∧ ofProgram packedForCall ⟨none, none⟩ = .ok t ∧
      t.commands = [.splitCoins .gasCoin [.input 0, .input 0],
        .makeMoveVec none [.nested 0 1, .nested 0 0], .moveCall "0x2" "pay" "join" [] [.result 1],
        .transferObjects [.nested 2 0] (.input 1)] ∧
      Placement packedForCall ⟨none, none⟩ t place := by
  have hdistinct : packedForCall.symbols.Nodup := by decide
  have h : ofProgram packedForCall ⟨none, none⟩ = .ok
      ⟨none, none, [.pure (some "u64") [5, 0, 0, 0, 0, 0, 0, 0],
        .pure (some "address") (List.replicate 31 0 ++ [1])],
        [.splitCoins .gasCoin [.input 0, .input 0], .makeMoveVec none [.nested 0 1, .nested 0 0],
          .moveCall "0x2" "pay" "join" [] [.result 1],
          .transferObjects [.nested 2 0] (.input 1)]⟩ := by
    decide +kernel
  obtain ⟨place, hplace⟩ := exists_placement hdistinct h
  exact ⟨_, place, hdistinct, h, rfl, hplace⟩

end Transaction

end TxGraph
