import TxGraph.Proofs.Lowering.Draft
import TxGraph.Proofs.Lowering.Env
import TxGraph.Proofs.Transaction.Recall

/-!
# Lowering what recalls a transaction

Lowering a program that recalls a transaction issues the commands of that transaction again. Inputs
are met in the order of their use, and get new numbers by it. `Mirrors` compares the draft with the
transaction, `Meets` says of a computation which inputs it meets. The only way to fail is to run out
of indices for these.
-/

namespace TxGraph.Lowering

open Transaction (Builder)
open Transaction.Builder

variable {α β : Type}

/-! ## Literals -/

section

variable {σ η : Type} (c : Context σ η)
variable {value : Operand}

theorem resolveWith_literal (expand : String → Operand → WalkM σ η (Resolved η)) (slot : Slot) :
    (symbol : Option String) → {value : Operand} → {v : Literal} → value.literal? = some v →
    c.resolveWith expand slot symbol value = pure (.literal v)
  | _, .constant k, _, h => by cases k <;> cases h <;> rfl
  | _, .integer _ _, _, h => by cases h; rfl
  | _, .vector items, _, h => by
    obtain ⟨vs, hvs, rfl⟩ := Operand.literal?_vector h
    rw [Context.resolveWith, go hvs, pure_bind, Resolved.vector, Resolved.literals?_map]
  | _, .absent, _, h => by cases h
  | _, .ref _, _, h => by cases h
  | _, .object _, _, h => by cases h
where
  go : {items : List Operand} → {vs : List Literal} → Operand.literal?.all? items = some vs →
      Context.resolveWith.resolveItems c expand slot items = pure (vs.map .literal)
    | [], _, h => by cases h; rfl
    | _ :: _, _, h => by
      obtain ⟨v, ws, hv, hws, rfl⟩ := Operand.literal?_cons h
      rw [Context.resolveWith.resolveItems, resolveWith_literal expand slot none hv, pure_bind,
        go hws, pure_bind, List.map_cons]

theorem resolveFrom_literal (slot : Slot) (depth : Nat) (symbol : Option String) {v : Literal}
    (h : value.literal? = some v) : c.resolveFrom slot depth symbol value = pure (.literal v) := by
  cases depth <;> exact resolveWith_literal c _ slot symbol h

theorem resolve_init {slot : Slot} {name : String} {w : Walk σ η} {depth : Nat}
    (hdepth : c.depth = depth + 1) (hinit : Directory.get? w.env name = some (.init value))
    (hvalue : ∀ other, value ≠ .ref other) :
    (c.resolve slot (.ref name)).run w = (c.resolveFrom slot depth (some name) value).run w := by
  simp only [Context.resolve, hdepth, Context.resolveFrom, Context.resolveWith, StateT.run_bind,
    StateT.run_get, pure_bind, hinit]

end

/-! ## Drafts and transactions -/

/-- A transaction in order, and a program that recalls it. -/
structure Recollection where
  rule : TxCommand.Rule
  t : Transaction
  p : Program
  kinds : UInt16 → ParamKind
  symbol : UInt16 → Option String
  tidy : Transaction.Tidy rule kinds t.inputs t.commands
  recalled : Transaction.Recalled kinds t symbol p

namespace Recollection

section

variable (R : Recollection)

/-- The draft repeats the first `k` commands of the transaction, with the inputs that were met. -/
structure Mirrors (k : Nat) (base seen : List UInt16) (w : Draft) : Prop where
  inputs : w.inputs.map some = seen.map fun i => R.t.inputs[i.toNat]?
  commands : List.Forall₂ (TxCommand.Renumbers base) (R.t.commands.take k) w.commands
  vars (v : Binding) : v ∈ R.p.vars → Directory.get? w.env v.name = some (.init v.init)
  results (j m : Nat) (c : TxCommand) (op : Operation) (name : String) : j < k →
    R.t.commands[j]? = some c → R.p.ops[j]? = some op → op.outputs[m]? = some name →
    Directory.get? w.env name = some (.bound (c.resultAt j m))
  room : seen.length ≤ Limited.limit
  unset : w.target.sender = none ∧ w.target.gasBudget = none

/-- The computation fails only if the inputs of the transaction are too many to be met again. -/
abbrev Retraces (w : Draft) (x : WalkM Builder TxArg α)
    (post : α → Draft → Prop) : Prop :=
  Ensures (fun _ => Limited.limit < R.t.unshared.length) w x post

/-- An encoding that the current operation has met is remembered under its name. -/
def Remembers (base seen : List UInt16) (w : Draft) : Prop :=
  ∀ i type bs name, R.t.inputs[i.toNat]? = some (.pure type bs) → R.symbol i = some name →
    i ∉ base →
    (∃ n, w.memo.lookup (R.kinds i, name) = some (.input n) ∧ seen[n.toNat]? = some i) ∨
    i ∉ seen ∧ w.memo.lookup (R.kinds i, name) = none

def Meets (k : Nat) (base seen seen' : List UInt16) (x : WalkM Builder TxArg α)
    (post : α → Prop) : Prop :=
  ∀ w, R.Mirrors k base seen w → R.Remembers base seen w → seen' <+: R.t.unshared →
    R.Retraces w x fun a w' => R.Mirrors k base seen' w' ∧ R.Remembers base seen' w' ∧ post a

/-- The computation meets the last inputs of the operation, and adds its command. -/
def Closes (k : Nat) (base seen seen' : List UInt16) (x : WalkM Builder TxArg Unit) : Prop :=
  ∀ w, R.Mirrors k base seen w → R.Remembers base seen w → seen' <+: R.t.unshared →
    R.Retraces w x fun _ w' => R.Mirrors (k + 1) seen' seen' w'

abbrev Recalls (k : Nat) : TxArg → Operand → Prop :=
  TxArg.Recalled R.kinds R.t R.symbol R.p k

/-- An encoding among the arguments has the kind and was not met by earlier operations. -/
def Suits (base : List UInt16) (kind : ParamKind) (arg : TxArg) : Prop :=
  ∀ i type bs, arg = .input i → R.t.inputs[i.toNat]? = some (.pure type bs) →
    R.kinds i = kind ∧ i ∉ base

/-- The walk builds a transaction, and follows each variable of the program. -/
structure Reads (c : Context Builder TxArg) : Prop where
  target : c.target = Builder.target
  depth : c.depth = R.p.vars.length

end

variable {R : Recollection} {k : Nat} {base seen seen' seen'' : List UInt16} {w : Draft}
  {c : Context Builder TxArg}
variable {i : UInt16} {kind : ParamKind} {arg : TxArg} {value : Operand} {args : List TxArg}
variable {x : TxInput} {f : Builder → Except Refusal (TxArg × Builder)} {type : Option String}
  {bs : Bytes} {name : String} {v : Literal} {values : List Operand}

namespace Meets

variable {x : WalkM Builder TxArg α} {post : α → Prop} {next : β → Prop}

theorem pure {a : α} (h : post a) : R.Meets k base seen seen (pure a) post :=
  fun _ hw hmemo _ => .pure ⟨hw, hmemo, h⟩

theorem bind {f : α → WalkM Builder TxArg β} (h : R.Meets k base seen seen' x post)
    (hfront : seen' <+: seen'') (hf : ∀ a, post a → R.Meets k base seen' seen'' (f a) next) :
    R.Meets k base seen seen'' (x >>= f) next :=
  fun w hw hmemo hmet => .bind (h w hw hmemo (hfront.trans hmet))
    fun a w' ⟨hw', hmemo', ha⟩ => hf a ha w' hw' hmemo' hmet

theorem map {f : α → β} (h : R.Meets k base seen seen' x post) (hf : ∀ a, post a → next (f a)) :
    R.Meets k base seen seen' (x >>= fun a => Pure.pure (f a)) next :=
  h.bind (List.prefix_refl _) fun a ha => .pure (hf a ha)

/-- Arguments are met before the command that takes them. -/
theorem close {f : α → WalkM Builder TxArg Unit} (h : R.Meets k base seen seen' x post)
    (hfront : seen' <+: seen'') (hf : ∀ a, post a → R.Closes k base seen' seen'' (f a)) :
    R.Closes k base seen seen'' (x >>= f) :=
  fun w hw hmemo hmet => .bind (h w hw hmemo (hfront.trans hmet))
    fun a w' ⟨hw', hmemo', ha⟩ => hf a ha w' hw' hmemo' hmet

end Meets

namespace Mirrors

variable (hw : R.Mirrors k base seen w)

include hw

theorem length_inputs : w.inputs.length = seen.length := by
  simpa using congrArg List.length hw.inputs

theorem getElem?_inputs {n : Nat} {i : UInt16} (hn : seen[n]? = some i) :
    w.inputs[n]? = R.t.inputs[i.toNat]? := by
  have hmap := congrArg (·[n]?) hw.inputs
  simp only [List.getElem?_map, hn, Option.map_some] at hmap
  cases hx : w.inputs[n]? with
  | none => simp [hx] at hmap
  | some x => simpa [hx] using hmap

theorem length_commands (hk : k ≤ R.t.commands.length) : w.commands.length = k := by
  rw [← hw.commands.length_eq, List.length_take, Nat.min_eq_left hk]

theorem addInput {i : UInt16} {x : TxInput} (hx : R.t.inputs[i.toNat]? = some x)
    (hroom : (seen ++ [i]).length ≤ Limited.limit) :
    R.Mirrors k base (seen ++ [i]) (w.addInput x) := by
  refine ⟨?_, hw.commands, hw.vars, hw.results, hroom, hw.unset⟩
  rw [inputs_addInput, List.map_append, List.map_append, hw.inputs, List.map_singleton,
    List.map_singleton, hx]

end Mirrors

/-! ## Objects and encodings -/

theorem note_old (h : i ∈ seen) : TxArg.note seen (.input i) = seen :=
  if_pos h

theorem note_new (h : i ∉ seen) : TxArg.note seen (.input i) = seen ++ [i] :=
  if_neg h

theorem renumbers_last (i : UInt16) (hroom : (seen ++ [i]).length ≤ Limited.limit) :
    (TxArg.input i).Renumbers (seen ++ [i]) (.input (UInt16.ofNat seen.length)) := by
  refine .input ?_
  rw [List.length_append, List.length_singleton] at hroom
  rw [toNat_index hroom, List.getElem?_concat_length]

section

variable {err : LowerError → Prop} {post : α → Draft → Prop}
  {f : Builder → Except Refusal (α × Builder)}

theorem call_does {a : α} {b : Builder} (h : f w.target = .ok (a, b))
    (hpost : post a { w with target := b }) : Ensures err w (c.call f) post := by
  obtain ⟨target, env, memo⟩ := w
  unfold Ensures StateT.run Context.call
  dsimp only at h ⊢
  rw [h]
  exact .ok hpost

theorem call_fails {cause : Refusal} (h : f w.target = .error cause) (herr : ∀ e, err e) :
    Ensures err w (c.call f) post := by
  obtain ⟨target, env, memo⟩ := w
  unfold Ensures StateT.run Context.call
  dsimp only at h ⊢
  rw [h]
  cases cause <;> exact .error (herr _)

end

theorem pushInput_retraces (hw : R.Mirrors k base seen w) (hmet : seen ++ [i] <+: R.t.unshared)
    (hf : f w.target = asTarget (pushInput x) w.target) :
    R.Retraces w (c.call f) fun arg w' => arg = .input (UInt16.ofNat seen.length) ∧
      w' = w.addInput x ∧ (seen ++ [i]).length ≤ Limited.limit := by
  have hsize : w.target.inputs.size = seen.length := by
    rw [← hw.length_inputs, Walk.inputs, Array.length_toList]
  have hlength : (seen ++ [i]).length = seen.length + 1 := List.length_append
  rw [asTarget_pushInput, hsize] at hf
  by_cases hlt : seen.length < Limited.limit
  · rw [if_pos hlt] at hf
    exact call_does hf ⟨rfl, rfl, hlength ▸ hlt⟩
  · rw [if_neg hlt] at hf
    have := hmet.length_le
    exact call_fails hf fun _ => by omega

theorem Remembers.addInput (hmemo : R.Remembers base seen w)
    (hnew : ∀ type bs, R.t.inputs[i.toNat]? ≠ some (.pure type bs)) :
    R.Remembers base (seen ++ [i]) (w.addInput x) := by
  intro j type bs name hj hname hbase
  rcases hmemo j type bs name hj hname hbase with ⟨n, hn, hseen⟩ | ⟨hseen, hnone⟩
  · exact .inl ⟨n, hn, getElem?_mono (List.prefix_append _ _) hseen⟩
  · refine .inr ⟨?_, hnone⟩
    rw [List.mem_append, List.mem_singleton]
    rintro (hmem | rfl)
    · exact hseen hmem
    · exact hnew type bs hj

theorem object_meets {id known : String} (hx : R.t.inputs[i.toNat]? = some (.object id))
    (hfull : fullAddress known = .ok id) (hf : f = asTarget (addObject known)) :
    R.Meets k base seen (TxArg.note seen (.input i)) (c.call f)
      (TxArg.Renumbers (TxArg.note seen (.input i)) (.input i)) := by
  subst hf
  intro w hw hmemo hmet
  have hcall := asTarget_addObject known w.target
  rw [hfull] at hcall
  cases hfound : w.target.inputs.findIdx? (· == .object id) with
  | some n =>
    simp only [hfound] at hcall
    have hget : w.inputs[n]? = some (.object id) :=
      Array.getElem?_toList.trans (findIdx?_object hfound)
    have hlt : n < seen.length := hw.length_inputs ▸ lt_of_getElem? hget
    have hn := List.getElem?_eq_getElem hlt
    have hsame : seen[n] = i := by
      rw [hw.getElem?_inputs hn] at hget
      exact UInt16.toNat_inj.mp (R.tidy.distinct _ _ id hget hx)
    rw [hsame] at hn
    have hold := note_old (List.mem_of_getElem? hn)
    rw [hold]
    refine call_does hcall ⟨hw, hmemo, .input ?_⟩
    rwa [toNat_index (hlt.trans_le hw.room)]
  | none =>
    simp only [hfound] at hcall
    have hnew : i ∉ seen := by
      intro hmem
      obtain ⟨n, hn⟩ := List.mem_iff_getElem?.mp hmem
      have hget := (hw.getElem?_inputs hn).trans hx
      exact findIdx?_object_eq_none.mp hfound
        (Array.mem_toList_iff.mp (List.mem_of_getElem? hget))
    rw [note_new hnew] at hmet ⊢
    refine (pushInput_retraces hw hmet hcall).mono ?_
    rintro _ _ ⟨rfl, rfl, hroom⟩
    refine ⟨hw.addInput hx hroom, hmemo.addInput fun type bs => ?_, renumbers_last i hroom⟩
    rw [hx]
    rintro ⟨⟩

theorem Reads.pure_eq (hc : R.Reads c) {value : Literal} (hgiven : value.given c.sender = value)
    (hencodes : PureValue.encode kind value = .ok ⟨type, bs⟩) (symbol : Option String)
    (b : Builder) :
    c.target.pure kind (value.given c.sender) symbol b =
      asTarget (pushInput (.pure type bs)) b := by
  rw [hc.target, hgiven]
  refine (asTarget_literal kind value b).trans ?_
  rw [hencodes]

theorem encodeLiteral_meets (hc : R.Reads c) {again : Literal}
    (hx : R.t.inputs[i.toNat]? = some (.pure type bs)) (hname : R.symbol i = some name)
    (hbase : i ∉ base) (hgiven : again.given c.sender = again)
    (hencodes : PureValue.encode (R.kinds i) again = .ok ⟨type, bs⟩) :
    R.Meets k base seen (TxArg.note seen (.input i))
      (c.encodeLiteral (R.kinds i) again (some name))
      (TxArg.Renumbers (TxArg.note seen (.input i)) (.input i)) := by
  intro w hw hmemo hmet
  refine .get_bind ?_
  simp only [Option.bind_some]
  rcases hmemo i type bs name hx hname hbase with ⟨n, hfound, hseen⟩ | ⟨hnew, hnone⟩
  · rw [hfound, note_old (List.mem_of_getElem? hseen)]
    exact .pure ⟨hw, hmemo, .input hseen⟩
  · rw [hnone]
    rw [note_new hnew] at hmet ⊢
    refine .bind (pushInput_retraces hw hmet (hc.pure_eq hgiven hencodes (some name) w.target)) ?_
    rintro _ _ ⟨rfl, rfl, hroom⟩
    have hlast := renumbers_last i hroom
    refine .modify_bind (.pure ⟨?_, fun j type' bs' name' hj hname' hbase' => ?_, hlast⟩)
    · have hadded := hw.addInput hx hroom
      exact ⟨hadded.inputs, hadded.commands, hadded.vars, hadded.results, hroom, hadded.unset⟩
    · by_cases hji : j = i
      · subst hji
        cases hname.symm.trans hname'
        cases hlast with
        | input hlast => exact .inl ⟨_, List.lookup_cons_self, hlast⟩
      · have hne : ((R.kinds j, name') == (R.kinds i, name)) = false := by
          rw [beq_eq_false_iff_ne]
          intro heq
          rw [(Prod.mk.inj heq).2] at hname'
          exact hji (R.recalled.symbols hname' hname)
        have hlookup : List.lookup (R.kinds j, name')
            (((R.kinds i, name), TxArg.input (UInt16.ofNat seen.length)) :: w.memo) =
              w.memo.lookup (R.kinds j, name') := by
          rw [List.lookup_cons, hne]
        rw [hlookup]
        rcases hmemo j type' bs' name' hj hname' hbase' with ⟨n, hn, hseen⟩ | ⟨hseen, hnone'⟩
        · exact .inl ⟨n, hn, getElem?_mono (List.prefix_append _ _) hseen⟩
        · refine .inr ⟨?_, hnone'⟩
          rw [List.mem_append, List.mem_singleton]
          exact fun hmem => hmem.elim hseen hji

/-! ## Arguments -/

theorem renumbers_resultAt (seen : List UInt16) (command : TxCommand) (j m : Nat) :
    TxArg.note seen (command.resultAt j m) = seen ∧
      (command.resultAt j m).Renumbers seen (command.resultAt j m) := by
  unfold TxCommand.resultAt
  split
  · exact ⟨rfl, .result _⟩
  · exact ⟨rfl, .nested _ _⟩

theorem Reads.succ (hc : R.Reads c) {v : Binding} (hv : v ∈ R.p.vars) :
    ∃ depth, c.depth = depth + 1 := by
  have := List.length_pos_of_mem hv
  have := hc.depth
  exact ⟨c.depth - 1, by omega⟩

/-- Whatever is no encoding is resolved to a handle. -/
theorem resolve_meets (hc : R.Reads c) (slot : Slot) (harg : R.Recalls k arg value)
    (hpure : arg.isPure R.t.inputs = false) :
    R.Meets k base seen (TxArg.note seen arg) (c.resolve slot value) fun r =>
      ∃ arg', r = .handle arg' ∧ arg.Renumbers (TxArg.note seen arg) arg' := by
  -- an object that is named by its own reference or by that of a variable
  have hobject {o : ObjectRef} {i : UInt16} {id known : String}
      (hx : R.t.inputs[i.toNat]? = some (.object id))
      (ho : objectRef o = addObject known)
      (hfull : fullAddress known = .ok id) (depth : Nat) (name : Option String) :
      R.Meets k base seen (TxArg.note seen (.input i))
        (c.resolveFrom slot depth name (.object o)) fun r => ∃ arg', r = .handle arg' ∧
          (TxArg.input i).Renumbers (TxArg.note seen (.input i)) arg' := by
    have hcall : c.target.object o name = asTarget (addObject known) := by
      rw [hc.target, ← ho]
      rfl
    cases depth <;> exact (object_meets hx hfull hcall).map fun arg' harg' => ⟨arg', rfl, harg'⟩
  cases harg with
  | gasCoin =>
    intro w hw hmemo _
    have hcall : c.target.object .gas none w.target = .ok (.gasCoin, w.target) := by
      rw [hc.target]
      rfl
    have hdone : R.Retraces w (c.call (c.target.object .gas none)) fun arg w' =>
        arg = .gasCoin ∧ w' = w := call_does hcall ⟨rfl, rfl⟩
    unfold Context.resolve
    cases c.depth <;> refine .bind hdone fun arg w' ⟨hgas, hsame⟩ => .pure ?_ <;> subst hgas hsame <;>
      exact ⟨hw, hmemo, .gasCoin, rfl, .gasCoin⟩
  | shared hx ho hfull => exact hobject hx ho hfull c.depth none
  | @object i id name hx hvar =>
    intro w hw hmemo hmet
    obtain ⟨text, htext⟩ := R.tidy.full i.toNat id hx
    obtain ⟨depth, hsucc⟩ := hc.succ hvar
    have hfull := fullAddress_fullAddress htext
    unfold Retraces Ensures
    rw [resolve_init c hsucc (hw.vars _ hvar) nofun]
    exact hobject hx rfl hfull depth (some name) w hw hmemo hmet
  | pure hx => simp [TxArg.isPure, hx] at hpure
  | @result j m command op name hj hcommand hop hname =>
    intro w hw hmemo _
    have hbound := hw.results j m command op name hj hcommand hop hname
    obtain ⟨hnote, hrenumbers⟩ := renumbers_resultAt seen command j m
    rw [hnote]
    have hresolve : (c.resolve slot (.ref name)).run w =
        .ok (.handle (command.resultAt j m), w) := by
      unfold Context.resolve
      cases c.depth <;> simp only [Context.resolveFrom, Context.resolveWith, StateT.run_bind,
        StateT.run_get, pure_bind, hbound] <;> rfl
    unfold Retraces Ensures
    rw [hresolve]
    exact .ok ⟨hw, hmemo, _, rfl, hrenumbers⟩

theorem resolve_literal (hc : R.Reads c) (slot : Slot) (hw : R.Mirrors k base seen w)
    {init : Operand} (hvar : ⟨name, init⟩ ∈ R.p.vars) (hliteral : init.literal? = some v) :
    R.Retraces w (c.resolve slot (.ref name)) fun r w' => r = .literal v ∧ w' = w := by
  obtain ⟨depth, hsucc⟩ := hc.succ hvar
  have hclosed : ∀ other, init ≠ .ref other := by
    rintro other rfl
    cases hliteral
  unfold Retraces Ensures
  rw [resolve_init c hsucc (hw.vars _ hvar) hclosed, resolveFrom_literal c slot depth _ hliteral]
  exact .ok ⟨rfl, rfl⟩

theorem given_of_literal? (hliteral : value.literal? = some v) (sender : Option String) :
    v.given sender = v := by
  cases sender with
  | none => rfl
  | some address => exact (Operand.spells_of_literal? hliteral).withSender address

theorem Suits.ne_handle (hsuits : R.Suits base kind arg) (hpure : arg.isPure R.t.inputs = true) :
    kind ≠ .handle := by
  cases arg with
  | input i =>
    cases hx : R.t.inputs[i.toNat]? with
    | none => simp [TxArg.isPure, hx] at hpure
    | some x =>
      cases x with
      | object id => simp [TxArg.isPure, hx] at hpure
      | pure type bs =>
        obtain ⟨hkind, -⟩ := hsuits i type bs rfl hx
        obtain ⟨hdeclared, hencodes⟩ := R.tidy.encodes i type bs hx
        obtain ⟨eff, data, again, hrecodes⟩ := hencodes.recodes hdeclared
        rintro rfl
        rw [hkind] at hrecodes
        rcases hrecodes.effective with heff | rfl
        · cases heff
        · exact hrecodes.solid
  | _ => cases hpure

/-- Whatever a resolved argument is used for, it is an input once. -/
theorem bind_meets (hc : R.Reads c) (slot : Slot) (harg : R.Recalls k arg value)
    (hsuits : R.Suits base kind arg) {f : Resolved TxArg → WalkM Builder TxArg TxArg}
    (hhandle : ∀ arg', f (.handle arg') = pure arg')
    (hliteral : arg.isPure R.t.inputs = true → ∀ v,
      f (.literal v) = c.encodeLiteral kind v (symbolOf value)) :
    R.Meets k base seen (TxArg.note seen arg) (c.resolve slot value >>= f)
      (TxArg.Renumbers (TxArg.note seen arg) arg) := by
  cases hpure : arg.isPure R.t.inputs with
  | false =>
    refine (resolve_meets hc slot harg hpure).bind (List.prefix_refl _) fun r hr => ?_
    obtain ⟨arg', rfl, hrenumbers⟩ := hr
    rw [hhandle]
    exact .pure hrenumbers
  | true =>
    intro w hw hmemo hmet
    cases harg with
    | gasCoin => cases hpure
    | shared hx => simp [TxArg.isPure, hx] at hpure
    | object hx => simp [TxArg.isPure, hx] at hpure
    | @result j m command =>
      unfold TxCommand.resultAt at hpure
      split at hpure <;> cases hpure
    | @pure i type bs name init again hx hname hvar hagain hencodes =>
      obtain ⟨rfl, hbase⟩ := hsuits i type bs rfl hx
      refine .bind (resolve_literal hc slot hw hvar hagain) fun r w' ⟨hr, hsame⟩ => ?_
      subst hr hsame
      rw [hliteral hpure]
      exact encodeLiteral_meets hc hx hname hbase (given_of_literal? hagain c.sender) hencodes _ hw
        hmemo hmet

theorem argument_meets (hc : R.Reads c) (slot : Slot) (harg : R.Recalls k arg value)
    (hsuits : R.Suits base kind arg) :
    R.Meets k base seen (TxArg.note seen arg) (c.argument slot kind value)
      (TxArg.Renumbers (TxArg.note seen arg) arg) :=
  bind_meets hc slot harg hsuits (fun _ => rfl) fun _ _ => rfl

theorem handle_meets (hc : R.Reads c) (slot : Slot) (harg : R.Recalls k arg value)
    (hsuits : R.Suits base .handle arg) :
    R.Meets k base seen (TxArg.note seen arg) (c.handle slot value)
      (TxArg.Renumbers (TxArg.note seen arg) arg) := by
  refine bind_meets hc slot harg hsuits (fun _ => rfl) fun hpure => ?_
  exact absurd rfl (hsuits.ne_handle hpure)

theorem numbered_meets (hc : R.Reads c) (name : String)
    (hargs : List.Forall₂ (R.Recalls k) args values) :
    ∀ (i : Nat) {seen : List UInt16}, (∀ arg ∈ args, R.Suits base kind arg) →
    R.Meets k base seen (args.foldl TxArg.note seen) (c.numbered name kind i values)
      (List.Forall₂ (TxArg.Renumbers (args.foldl TxArg.note seen)) args) := by
  induction hargs with
  | nil => exact fun _ _ _ => .pure .nil
  | @cons arg value rest values hfirst _ ih =>
    intro i seen hsuits
    obtain ⟨hsuit, hsuits⟩ := List.forall_mem_cons.mp hsuits
    have hfront := TxArg.prefix_foldl_note (TxArg.note seen arg) rest
    rw [List.foldl_cons]
    have hitem : R.Meets k base seen (TxArg.note seen arg)
        (c.resolve (Slot.nth name i) value >>= c.element (Slot.nth name i) kind (symbolOf value))
        (TxArg.Renumbers (TxArg.note seen arg) arg) := by
      refine bind_meets hc _ hfirst hsuit (fun _ => rfl) fun hpure v => ?_
      exact if_neg (hsuit.ne_handle hpure)
    rw [Context.numbered, ← bind_assoc]
    refine hitem.bind hfront fun arg' harg' => ?_
    refine (ih (i + 1) hsuits).map fun rest' hrest' => .cons (harg'.mono hfront) hrest'

theorem arguments_meets (hc : R.Reads c) (name : String) {values : List Argument}
    (hargs : List.Forall₂ (fun arg (value : Argument) => R.Recalls k arg value.value ∧
      R.Suits base value.kind arg) args values) :
    ∀ (i : Nat) {seen : List UInt16},
    R.Meets k base seen (args.foldl TxArg.note seen) (c.arguments name i values)
      (List.Forall₂ (TxArg.Renumbers (args.foldl TxArg.note seen)) args) := by
  induction hargs with
  | nil => exact fun _ _ => .pure .nil
  | @cons arg value rest values hfirst _ ih =>
    intro i seen
    have hfront := TxArg.prefix_foldl_note (TxArg.note seen arg) rest
    rw [List.foldl_cons]
    refine (argument_meets hc _ hfirst.1 hfirst.2).bind hfront fun arg' harg' => ?_
    exact (ih (i + 1)).map fun rest' hrest' => .cons (harg'.mono hfront) hrest'

theorem typeNames_meets (hc : R.Reads c) {names : List String}
    (hnames : List.Forall₂ (Operand.Names R.p) names values) :
    ∀ (i : Nat), (∀ name ∈ names, Text.trim name = name ∧ name ≠ "") →
    R.Meets k base seen seen (c.typeNames i values) fun found => found = names := by
  induction hnames with
  | nil => exact fun _ _ => .pure rfl
  | @cons text value rest values hfirst _ ih =>
    intro i htexts
    obtain ⟨⟨htrim, hne⟩, hrest⟩ := List.forall_mem_cons.mp htexts
    have hname : R.Meets k base seen seen
        (c.typeName (Slot.nth "type_arg" i) value) fun found => found = text := by
      intro w hw hmemo _
      obtain ⟨name, rfl, hvar⟩ := hfirst
      refine .bind (resolve_literal hc _ hw hvar rfl) fun r w' ⟨hr, hsame⟩ => ?_
      subst hr hsame
      have hnonempty : (Text.trim text).isEmpty = false := by
        rw [htrim, String.isEmpty_eq_false_iff]
        exact hne
      dsimp only
      rw [hnonempty, htrim]
      exact .pure ⟨hw, hmemo, rfl⟩
    refine hname.bind (List.prefix_refl _) fun found hfound => ?_
    exact (ih (i + 1) hrest).map fun more hmore => by rw [hfound, hmore]

/-! ## Vectors of vectors -/

/-- The elements of a literal become inputs one by one. -/
theorem elements_mirrors (hc : R.Reads c) (slot : Slot) {elems : List TxArg}
    {values : List Literal} (hkind : elems ≠ [] → kind ≠ .handle)
    (helems : List.Forall₂ (TxArg.Spelled R.t kind) elems values)
    (hgiven : ∀ v ∈ values, v.given c.sender = v) :
    ∀ {seen : List UInt16} {w : Draft}, R.Mirrors k base seen w →
    seen ++ elems.filterMap TxArg.input? <+: R.t.unshared →
    R.Retraces w (c.elements slot kind (values.map .literal)) fun args' w' =>
      R.Mirrors k base (seen ++ elems.filterMap TxArg.input?) w' ∧
      List.Forall₂ (TxArg.Renumbers (seen ++ elems.filterMap TxArg.input?)) elems args' := by
  induction helems with
  | nil =>
    intro seen w hw _
    exact .pure ⟨by simpa using hw, .nil⟩
  | @cons arg value elems values hfirst _ ih =>
    intro seen w hw hmet
    obtain ⟨hvalue, hrest⟩ := List.forall_mem_cons.mp hgiven
    obtain ⟨i, type, bs, rfl, hx, hencodes⟩ := hfirst
    have hsplit : seen ++ (TxArg.input i :: elems).filterMap TxArg.input? =
        (seen ++ [i]) ++ elems.filterMap TxArg.input? := by
      simp [TxArg.input?]
    rw [hsplit] at hmet ⊢
    have hfront : seen ++ [i] <+: (seen ++ [i]) ++ elems.filterMap TxArg.input? :=
      List.prefix_append _ _
    have hdone : R.Retraces w (c.element slot kind none (.literal value)) fun arg w' =>
        arg = .input (UInt16.ofNat seen.length) ∧ w' = w.addInput (.pure type bs) ∧
          (seen ++ [i]).length ≤ Limited.limit := by
      rw [Context.element, if_neg (hkind (List.cons_ne_nil _ _))]
      exact .get_bind (.bind (pushInput_retraces hw (hfront.trans hmet)
        (hc.pure_eq hvalue hencodes none w.target)) fun _ _ hpost => .pure hpost)
    refine .bind hdone ?_
    rintro _ _ ⟨rfl, rfl, hroom⟩
    have hkind' : elems ≠ [] → kind ≠ .handle := fun _ => hkind (List.cons_ne_nil _ _)
    refine .bind (ih hkind' hrest (hw.addInput hx hroom) hmet) ?_
    rintro args' w'' ⟨hw'', hargs'⟩
    refine .pure ⟨hw'', ?_⟩
    exact .cons ((renumbers_last i hroom).mono hfront) hargs'

/-! ## Commands -/

structure At (R : Recollection) (k : Nat) (base : List UInt16) (command : TxCommand)
    (op : Operation) : Prop where
  command : R.t.commands[k]? = some command
  op : R.p.ops[k]? = some op
  earlier : ∀ i ∈ base, ∃ c ∈ R.t.commands.take k, TxArg.input i ∈ c.args

variable {command command' : TxCommand} {op : Operation}

namespace At

variable (h : R.At k base command op)

include h

theorem recalled : command.Recalled R.kinds R.t R.symbol R.p k op :=
  R.recalled.command k command op h.command h.op

theorem formed : command.Formed :=
  (R.tidy.commands k command h.command).formed

theorem few : k < Limited.limit :=
  (lt_of_getElem? h.command).trans_le R.tidy.fewCommands

/-- The names of one operation are its own. -/
theorem own : op.outputs.Nodup ∧ (∀ v ∈ R.p.vars, v.name ∉ op.outputs) ∧
    ∀ j other, j < k → R.p.ops[j]? = some other → ∀ name ∈ other.outputs, name ∉ op.outputs := by
  obtain ⟨-, hops, hdisjoint⟩ := List.nodup_append.mp R.recalled.distinct
  obtain ⟨hown, hpairs⟩ := List.nodup_flatMap.mp hops
  have hmem := List.mem_of_getElem? h.op
  refine ⟨hown op hmem, fun v hv hname => ?_, fun j other hj hother name hname hname' => ?_⟩
  · exact hdisjoint _ (List.mem_map_of_mem hv) _ (List.mem_flatMap.mpr ⟨op, hmem, hname⟩) rfl
  · obtain ⟨hlt, rfl⟩ := List.getElem?_eq_some_iff.mp h.op
    obtain ⟨hlt', rfl⟩ := List.getElem?_eq_some_iff.mp hother
    exact List.pairwise_iff_getElem.mp hpairs j k hlt' hlt hj hname hname'

/-- The encodings among the arguments of a command are its own. -/
theorem suits_of_fits {arg : TxArg} (harg : arg ∈ command.args) {kind : ParamKind}
    (hfits : arg.Fits R.kinds R.t.inputs (R.t.commands.take k) kind) : R.Suits base kind arg := by
  rintro i type bs rfl hx
  refine ⟨?_, fun hmem => ?_⟩
  · rcases hfits with hstands | ⟨j, hij, -, hkind⟩
    · obtain ⟨id, hobject⟩ := TxArg.object_of_stands hstands
      cases hx.symm.trans hobject
    · cases hij
      exact hkind
  · obtain ⟨other, hother, hi⟩ := h.earlier i hmem
    exact (R.tidy.commands k command h.command).own i harg ⟨type, bs, hx⟩ other hother hi

theorem suits : ∃ params, command.Takes R.rule params ∧
    List.Forall₂ (fun arg kind => R.Suits base kind arg) command.args params := by
  obtain ⟨params, htakes, hargs⟩ := (R.tidy.commands k command h.command).args
  refine ⟨params, htakes, ((List.forall₂_and_left _ _).mpr ⟨fun _ => id, hargs⟩).imp ?_⟩
  exact fun arg kind hboth => h.suits_of_fits hboth.1 hboth.2

end At

theorem At.front (_ : R.At k base command op) : base <+: command.meet R.t.inputs base :=
  TxCommand.prefix_meet R.t.inputs base command

theorem suits_of_replicate {n : Nat}
    (hargs : List.Forall₂ (fun arg kind => R.Suits base kind arg) args (List.replicate n kind)) :
    ∀ arg ∈ args, R.Suits base kind arg := by
  intro arg harg
  obtain ⟨_, hmem, hsuits⟩ := exists_of_forall₂ hargs harg
  rwa [List.eq_of_mem_replicate hmem] at hsuits

section

variable (h : R.At k base command op) (hw : R.Mirrors k base seen w) (hfront : base <+: seen)
  (hcommand : command.Renumbers seen command')

include h hw

theorem size_commands : w.target.commands.size = k := by
  rw [← hw.length_commands (Nat.le_of_lt (lt_of_getElem? h.command)), Walk.commands,
    Array.length_toList]

include hfront hcommand

/-- A command whose arguments have their new numbers ends the operation. -/
theorem Mirrors.next (args : List TxArg)
    (hargs : ∀ m name, op.outputs[m]? = some name → args[m]? = some (command.resultAt k m)) :
    R.Mirrors (k + 1) seen seen
      { w.addCommand command' with env := bindEnv op.outputs args w.env } := by
  obtain ⟨hnodup, hvars, hearlier⟩ := h.own
  have hothers {name : String} (hname : name ∉ op.outputs) :
      Directory.get? (bindEnv op.outputs args w.env) name = Directory.get? w.env name :=
    get?_bindEnv_of_notMem fun hmem => hname (List.mem_of_mem_take hmem)
  refine ⟨hw.inputs, ?_, fun v hv => ?_, fun j m c other name hj hc hother hname => ?_, hw.room,
    hw.unset⟩
  · have htake : R.t.commands.take (k + 1) = R.t.commands.take k ++ [command] := by
      rw [List.take_add_one, h.command, Option.toList_some]
    show List.Forall₂ _ _ (w.addCommand command').commands
    rw [htake, commands_addCommand]
    exact List.rel_append (hw.commands.imp fun _ _ hc => hc.mono hfront) (.cons hcommand .nil)
  · exact (hothers (hvars v hv)).trans (hw.vars v hv)
  · rcases Nat.lt_succ_iff_lt_or_eq.mp hj with hj | rfl
    · exact (hothers (hearlier j other hj hother name (List.mem_of_getElem? hname))).trans
        (hw.results j m c other name hj hc hother hname)
    · cases h.op.symm.trans hother
      cases h.command.symm.trans hc
      exact get?_bindEnv_of_nodup hnodup hname (hargs m name hname)

theorem pushOnly_mirrors (hout : op.outputs = []) {f : Builder → Except Refusal (Unit × Builder)}
    (hf : f = asTarget (pushOnly command')) :
    R.Retraces w (c.call f) fun _ w' => R.Mirrors (k + 1) seen seen w' := by
  have hcall := congrFun hf w.target
  rw [(appends_pushOnly _).asTarget, if_pos (by decide), size_commands h hw, if_pos h.few] at hcall
  have hnext := hw.next h hfront hcommand [] (by simp [hout])
  rw [hout] at hnext
  exact call_does hcall hnext

theorem pushWithResult_mirrors {out : String} (hout : op.outputs = [out])
    (hsingle : command.isSingle = true) {f : Builder → Except Refusal (TxArg × Builder)}
    (hf : f = asTarget (pushWithResult command')) :
    R.Retraces w (c.call f >>= fun arg => Context.bind out arg) fun _ w' =>
      R.Mirrors (k + 1) seen seen w' := by
  have hcall := congrFun hf w.target
  rw [(appends_pushWithResult _).asTarget, if_pos (by decide), size_commands h hw,
    if_pos h.few] at hcall
  have hdone : R.Retraces w (c.call f) fun arg w' =>
      arg = .result (UInt16.ofNat k) ∧ w' = w.addCommand command' := call_does hcall ⟨rfl, rfl⟩
  refine .bind hdone fun arg w₁ ⟨harg, hw₁⟩ => ?_
  subst harg hw₁
  have hargs : ∀ m name, op.outputs[m]? = some name →
      [TxArg.result (UInt16.ofNat k)][m]? = some (command.resultAt k m) := by
    intro m name hname
    rw [hout, List.getElem?_singleton] at hname
    split at hname
    case isTrue hm => rw [hm, List.getElem?_singleton, if_pos rfl, TxCommand.resultAt, if_pos hsingle]
    case isFalse => cases hname
  have hnext := hw.next h hfront hcommand _ hargs
  rw [hout] at hnext
  exact .modify hnext

theorem pushWithResults_mirrors {out : List String} (hout : op.outputs = out)
    (hsingle : command.isSingle = false) (hfew : out.length < Limited.limit)
    {f : Builder → Except Refusal (List TxArg × Builder)}
    (hf : f = asTarget (pushWithResults command' out.length)) :
    R.Retraces w (c.call f >>= fun args => Context.bindAll out args) fun _ w' =>
      R.Mirrors (k + 1) seen seen w' := by
  have hcall := congrFun hf w.target
  rw [(appends_pushWithResults _ _).asTarget, if_pos hfew, size_commands h hw,
    if_pos h.few] at hcall
  have hdone : R.Retraces w (c.call f) fun args w' =>
      args = results (UInt16.ofNat k) out.length ∧ w' = w.addCommand command' :=
    call_does hcall ⟨rfl, rfl⟩
  refine .bind hdone fun args w₁ ⟨hargs, hw₁⟩ => ?_
  subst hargs hw₁ hout
  rw [Ensures, run_bindAll]
  refine .ok (hw.next h hfront hcommand _ fun m name hname => ?_)
  have hm := lt_of_getElem? hname
  simp [results, hm, TxCommand.resultAt, hsingle]

end

/-! ## Operations -/

theorem given_of_all? {items : List Operand} {values : List Literal}
    (hvalues : Operand.literal?.all? items = some values) (sender : Option String) :
    ∀ v ∈ values, v.given sender = v := by
  induction items generalizing values with
  | nil =>
    cases hvalues
    nofun
  | cons item rest ih =>
    obtain ⟨v, ws, hv, hws, rfl⟩ := Operand.literal?_cons hvalues
    exact List.forall_mem_cons.mpr ⟨given_of_literal? hv sender, ih hws⟩

/-- The operation repeats the command, whose inputs are met after those of earlier ones. -/
def Repeats (R : Recollection) (k : Nat) (base : List UInt16) (c : Context Builder TxArg)
    (command : TxCommand) (op : Operation) : Prop :=
  R.Closes k base base (command.meet R.t.inputs base) (c.operation op)

section

variable (hc : R.Reads c)
variable {group : Group} {out : String} {value : Operand}
variable {elem : Option String} {elems : List TxArg} {package : String}

include hc

/-- The elements of a vector, in the three ways in which they are given. -/
theorem spread_mirrors (h : R.At k base (.makeMoveVec elem elems) (.makeMoveVec elem group out))
    (hw : R.Mirrors k base base w) (hmemo : R.Remembers base base w)
    (hmet : (TxCommand.makeMoveVec elem elems).meet R.t.inputs base <+: R.t.unshared) :
    R.Retraces w (c.spread "elements" (Context.vectorElemKind elem) group) fun args' w' =>
      R.Mirrors k base ((TxCommand.makeMoveVec elem elems).meet R.t.inputs base) w' ∧
      List.Forall₂ (TxArg.Renumbers ((TxCommand.makeMoveVec elem elems).meet R.t.inputs base))
        elems args' := by
  obtain ⟨params, rfl, hsuits⟩ := h.suits
  replace hsuits := suits_of_replicate hsuits
  unfold TxCommand.meet at hmet ⊢
  cases h.recalled with
  | elements hpacked helems =>
    rw [if_neg (by simp [hpacked])] at hmet ⊢
    refine (numbered_meets hc "elements" helems 0 hsuits w hw hmemo hmet).mono ?_
    rintro _ _ ⟨hw', -, hargs'⟩
    exact ⟨hw', hargs'⟩
  | @whole _ arg _ _ hpacked harg =>
    have hnot : ¬ (TxCommand.makeMoveVec elem [arg]).isPacked R.t.inputs = true := by
      cases elem <;> simp [TxCommand.isPacked, hpacked]
    rw [if_neg hnot] at hmet ⊢
    refine .bind (resolve_meets hc _ harg hpacked w hw hmemo hmet) ?_
    rintro _ w' ⟨hw', -, arg', rfl, harg'⟩
    exact .pure ⟨hw', .cons harg' .nil⟩
  | @packed _ _ items values name _ hpacked hvar hliteral helems =>
    rw [if_pos hpacked] at hmet ⊢
    have hvector : (Operand.vector items).literal? = some (.list values) := by
      rw [Operand.literal?, hliteral, Option.map_some]
    refine .bind (resolve_literal hc _ hw hvar hvector) ?_
    rintro _ _ ⟨rfl, rfl⟩
    refine elements_mirrors hc _ (fun hne => ?_) helems (given_of_all? hliteral c.sender) hw hmet
    obtain ⟨arg, rest, rfl⟩ := List.exists_cons_of_ne_nil hne
    have hpure : arg.isPure R.t.inputs = true := by
      cases elem with
      | none => cases hpacked
      | some spelling =>
        simp only [TxCommand.isPacked, Bool.and_eq_true, List.all_cons] at hpacked
        exact hpacked.2.1
    exact (hsuits arg List.mem_cons_self).ne_handle hpure

theorem makeMoveVec_repeats
    (h : R.At k base (.makeMoveVec elem elems) (.makeMoveVec elem group out)) :
    R.Repeats k base c (.makeMoveVec elem elems) (.makeMoveVec elem group out) := by
  intro w hw hmemo hmet
  refine .bind (spread_mirrors hc h hw hmemo hmet) fun elems' w₁ ⟨hw₁, helems'⟩ => ?_
  have hcommand : (TxCommand.makeMoveVec elem elems).Renumbers _ (.makeMoveVec elem elems') :=
    ⟨rfl, helems'⟩
  exact pushWithResult_mirrors h hw₁ h.front hcommand rfl rfl (by rw [hc.target]; rfl)

theorem splitCoins_repeats {coin : TxArg} {amounts : List TxArg} {values : List Operand}
    {out : List String} (h : R.At k base (.splitCoins coin amounts) (.splitCoins value values out)) :
    R.Repeats k base c (.splitCoins coin amounts) (.splitCoins value values out) := by
  obtain ⟨params, rfl, hsuits⟩ := h.suits
  cases h.recalled with
  | splitCoins hcoin hamounts hout =>
  cases hsuits with
  | cons hsuit hrest =>
  have hamounts' : List.Forall₂ (fun arg (value : Argument) => R.Recalls k arg value.value ∧
      R.Suits base value.kind arg) amounts (values.map fun a => ⟨a, .integer .u64⟩) := by
    rw [List.forall₂_map_right_iff]
    exact ((List.forall₂_and_left _ _).mpr ⟨suits_of_replicate hrest, hamounts⟩).imp
      fun _ _ hboth => hboth.symm
  refine (handle_meets hc _ hcoin hsuit).close (TxArg.prefix_foldl_note _ _) fun coin' hcoin' => ?_
  refine (arguments_meets hc "amount" hamounts' 0).close (List.prefix_refl _)
    fun amounts' hamounts' w hw _ _ => ?_
  have hcommand : (TxCommand.splitCoins coin amounts).Renumbers _ (.splitCoins coin' amounts') :=
    ⟨rfl, .cons (hcoin'.mono (TxArg.prefix_foldl_note _ _)) hamounts'⟩
  have hcall : c.target.splitCoins coin' amounts' out =
      asTarget (pushWithResults (.splitCoins coin' amounts') out.length) := by
    rw [hc.target, hout, hamounts'.length_eq]
    rfl
  exact pushWithResults_mirrors h hw h.front hcommand rfl rfl (hout ▸ h.formed.2) hcall

theorem mergeCoins_repeats {destination : TxArg} {sources : List TxArg}
    (h : R.At k base (.mergeCoins destination sources) (.mergeCoins value group)) :
    R.Repeats k base c (.mergeCoins destination sources) (.mergeCoins value group) := by
  obtain ⟨params, rfl, hsuits⟩ := h.suits
  cases h.recalled with
  | mergeCoins hdestination hsources =>
  cases hsuits with
  | cons hsuit hrest =>
  refine (handle_meets hc _ hdestination hsuit).close (TxArg.prefix_foldl_note _ _)
    fun destination' hdestination' => ?_
  refine (numbered_meets hc "sources" hsources 0 (suits_of_replicate hrest)).close
    (List.prefix_refl _) fun sources' hsources' w hw _ _ => ?_
  have hcommand : (TxCommand.mergeCoins destination sources).Renumbers _
      (.mergeCoins destination' sources') :=
    ⟨rfl, .cons (hdestination'.mono (TxArg.prefix_foldl_note _ _)) hsources'⟩
  exact pushOnly_mirrors h hw h.front hcommand rfl (by rw [hc.target]; rfl)

theorem transferObjects_repeats {objects : List TxArg} {recipient : TxArg}
    (h : R.At k base (.transferObjects objects recipient) (.transferObjects group value)) :
    R.Repeats k base c (.transferObjects objects recipient) (.transferObjects group value) := by
  obtain ⟨params, rfl, hsuits⟩ := h.suits
  have hfront := h.front
  have hmeet : (TxCommand.transferObjects objects recipient).meet R.t.inputs base =
      TxArg.note (objects.foldl TxArg.note base) recipient := by
    rw [TxCommand.meet, if_neg (by simp [TxCommand.isPacked]), TxCommand.args, List.foldl_append]
    rfl
  have hlast := TxArg.prefix_note (objects.foldl TxArg.note base) recipient
  unfold Repeats
  rw [hmeet] at hfront ⊢
  have hsuit : R.Suits base .address recipient := by
    have := List.forall₂_drop_append _ _ _ hsuits
    simpa [TxCommand.args] using this
  have hrest : ∀ arg ∈ objects, R.Suits base .handle arg := by
    have := List.forall₂_take_append _ _ _ hsuits
    rw [List.length_replicate, TxCommand.args, List.take_left] at this
    exact suits_of_replicate this
  cases h.recalled with
  | transferObjects hobjects hrecipient =>
  refine (numbered_meets hc "objects" hobjects 0 hrest).close hlast fun objects' hobjects' => ?_
  refine (argument_meets hc _ hrecipient hsuit).close (List.prefix_refl _)
    fun recipient' hrecipient' w hw _ _ => ?_
  have hcommand : (TxCommand.transferObjects objects recipient).Renumbers _
      (.transferObjects objects' recipient') :=
    ⟨rfl, List.rel_append (hobjects'.imp fun _ _ harg => harg.mono hlast) (.cons hrecipient' .nil)⟩
  exact pushOnly_mirrors h hw hfront hcommand rfl (by rw [hc.target]; rfl)

theorem moveCall_repeats {module function : String} {typeArgs : List String} {args : List TxArg}
    {types : List Operand} {values : List Argument} {out : List String}
    (h : R.At k base (.moveCall package module function typeArgs args)
      (.moveCall package module function types values out)) :
    R.Repeats k base c (.moveCall package module function typeArgs args)
      (.moveCall package module function types values out) := by
  cases h.recalled with
  | moveCall htypes hargs hfits hout =>
  rw [List.forall₂_map_right_iff] at hargs
  have hsuits : List.Forall₂ (fun arg (value : Argument) => R.Suits base value.kind arg)
      args values := by
    refine ((List.forall₂_and_left _ _).mpr ⟨fun _ => id, hfits⟩).imp ?_
    exact fun arg value hboth => h.suits_of_fits hboth.1 hboth.2
  refine (typeNames_meets hc htypes 0 h.formed.2).close h.front fun names hsame => ?_
  subst hsame
  refine (arguments_meets hc "arg" (List.Forall₂.mp (fun _ _ => And.intro) hargs hsuits) 0).close
    (List.prefix_refl _) fun args' hargs' w hw _ _ => ?_
  have hcommand : (TxCommand.moveCall package module function names args).Renumbers _
      (.moveCall package module function names args') := ⟨rfl, hargs'⟩
  exact pushWithResults_mirrors h hw h.front hcommand rfl rfl hout (by rw [hc.target]; rfl)

theorem upgrade_repeats {modules dependencies : List String} {ticket : TxArg}
    (h : R.At k base (.upgrade modules dependencies package ticket)
      (.upgrade modules dependencies package value out)) :
    R.Repeats k base c (.upgrade modules dependencies package ticket)
      (.upgrade modules dependencies package value out) := by
  obtain ⟨params, rfl, hsuits⟩ := h.suits
  cases h.recalled with
  | upgrade hticket =>
  cases hsuits with
  | cons hsuit =>
  refine (handle_meets hc _ hticket hsuit).close (List.prefix_refl _)
    fun ticket' hticket' w hw _ _ => ?_
  have hcommand : (TxCommand.upgrade modules dependencies package ticket).Renumbers _
      (.upgrade modules dependencies package ticket') := ⟨rfl, .cons hticket' .nil⟩
  exact pushWithResult_mirrors h hw h.front hcommand rfl rfl (by rw [hc.target]; rfl)

/-- **One operation repeats one command.** -/
theorem operation_repeats (h : R.At k base command op) : R.Repeats k base c command op := by
  cases h.recalled with
  | splitCoins => exact splitCoins_repeats hc h
  | mergeCoins => exact mergeCoins_repeats hc h
  | transferObjects => exact transferObjects_repeats hc h
  | moveCall => exact moveCall_repeats hc h
  | @publish modules dependencies out =>
    intro w hw _ _
    have hcommand : (TxCommand.publish modules dependencies).Renumbers base
        (.publish modules dependencies) := ⟨rfl, .nil⟩
    exact pushWithResult_mirrors h hw (List.prefix_refl _) hcommand rfl rfl (by rw [hc.target]; rfl)
  | upgrade => exact upgrade_repeats hc h
  | _ => exact makeMoveVec_repeats hc h

end

theorem mem_foldl_meet {inputs : List TxInput} {commands : List TxCommand} {seen : List UInt16} :
    i ∈ commands.foldl (TxCommand.meet inputs) seen ↔
      i ∈ seen ∨ ∃ c ∈ commands, TxArg.input i ∈ c.args := by
  induction commands generalizing seen with
  | nil => simp
  | cons c rest ih => rw [List.foldl_cons, ih, TxCommand.mem_meet, List.exists_mem_cons_iff, or_assoc]

def met (R : Recollection) (k : Nat) : List UInt16 :=
  (R.t.commands.take k).foldl (TxCommand.meet R.t.inputs) []

/-- **The operations repeat the commands one after the other.** -/
theorem operations_mirrors (sender : Option String) {ops : List Operation} :
    ∀ {k : Nat} {w : Draft}, R.p.ops.drop k = ops → R.Mirrors k (R.met k) (R.met k) w →
    R.Retraces w (operations Builder.target sender R.p.vars.length k ops) fun _ w' =>
      R.Mirrors R.t.commands.length R.t.unshared R.t.unshared w' := by
  induction ops with
  | nil =>
    intro k w hops hw
    have hle : R.t.commands.length ≤ k := by
      rw [← R.recalled.length]
      exact List.drop_eq_nil_iff.mp hops
    rw [met, List.take_of_length_le hle] at hw
    refine .pure ⟨hw.inputs, ?_, hw.vars, fun j m c op name hj => ?_, hw.room, hw.unset⟩
    · rw [List.take_length, ← List.take_of_length_le hle]
      exact hw.commands
    · exact hw.results j m c op name (hj.trans_le hle)
  | cons op rest ih =>
    intro k w hops hw
    have hop : R.p.ops[k]? = some op := by
      rw [← List.head?_drop, hops, List.head?_cons]
    have hrest : R.p.ops.drop (k + 1) = rest := by
      rw [← List.tail_drop, hops, List.tail_cons]
    have hlt : k < R.t.commands.length := R.recalled.length ▸ lt_of_getElem? hop
    have hk := List.getElem?_eq_getElem hlt
    have hnext : R.met (k + 1) = (R.t.commands[k]).meet R.t.inputs (R.met k) := by
      rw [met, List.take_add_one, hk, Option.toList_some, List.foldl_append]
      rfl
    have hfront : R.met (k + 1) <+: R.t.unshared := by
      have := TxCommand.prefix_foldl_meet R.t.inputs (R.met (k + 1)) (R.t.commands.drop (k + 1))
      rwa [met, ← List.foldl_append, List.take_append_drop] at this
    have hat : R.At k (R.met k) _ op :=
      ⟨hk, hop, fun i hi => (mem_foldl_meet.mp hi).resolve_left List.not_mem_nil⟩
    have hcleared : R.Mirrors k (R.met k) (R.met k) { w with memo := [] } :=
      ⟨hw.inputs, hw.commands, hw.vars, hw.results, hw.room, hw.unset⟩
    refine .modify_bind (.bind (operation_repeats ⟨rfl, rfl⟩ hat _ hcleared
      (fun _ _ _ _ _ _ hnew => .inr ⟨hnew, rfl⟩) (hnext ▸ hfront)) fun _ w₁ hw₁ => ?_)
    rw [← hnext] at hw₁
    exact ih hrest hw₁

end Recollection

end TxGraph.Lowering

namespace TxGraph.Transaction

theorem Builder.configure_full {b : Builder} {sender : Option String} {budget : Option UInt64}
    (hunset : b.sender = none ∧ b.gasBudget = none)
    (hsender : ∀ s, sender = some s → Builder.fullAddress s = .ok s) :
    b.configure ⟨sender, budget⟩ = .ok ⟨sender, budget, b.inputs, b.commands⟩ := by
  rw [configure_eq, hunset.1, hunset.2, Option.or_none]
  cases sender with
  | none => rfl
  | some s =>
    simp only [Script.senderOf, hsender s rfl]
    rfl

section

variable {rule : TxCommand.Rule} {t : Transaction} {p : Program} {kinds : UInt16 → ParamKind}
  {symbol : UInt16 → Option String} (h : Transaction.Tidy rule kinds t.inputs t.commands)
  (hp : Transaction.Recalled kinds t symbol p)
  (hsender : ∀ s, t.sender = some s → ∃ text, Builder.fullAddress text = .ok s)

include h hp hsender

/-- **A program that recalls a transaction builds it again**, with inputs in the order of their
use, and fails only if these are too many. -/
theorem ofProgram_of_recalled :
    Ends (fun _ => Limited.limit < t.unshared.length)
      (fun t' => t.unshared.length ≤ Limited.limit ∧ Renumbers t.unshared t t' ∧
        t'.sender = t.sender ∧ t'.gasBudget = t.gasBudget)
      (ofProgram p ⟨t.sender, t.gasBudget⟩) := by
  let R : Lowering.Recollection := ⟨rule, t, p, kinds, symbol, h, hp⟩
  have hstart : R.Mirrors 0 [] [] ⟨Builder.empty, Lowering.initialEnv p.vars, []⟩ := by
    refine ⟨rfl, .nil, fun v hv => ?_, fun j => by omega, Nat.zero_le _, rfl, rfl⟩
    exact Lowering.get?_initialEnv_of_mem (List.nodup_append.mp hp.distinct).1 hv
  have hfull : ∀ s, t.sender = some s → Builder.fullAddress s = .ok s := by
    intro s hs
    obtain ⟨text, htext⟩ := hsender s hs
    exact Builder.fullAddress_fullAddress htext
  rw [ofProgram, hp.usesSender, Bool.and_false, if_neg Bool.false_ne_true]
  have hlower : Ends (fun _ => Limited.limit < t.unshared.length)
      (fun b => ∃ w, b = w.target ∧ R.Mirrors t.commands.length t.unshared t.unshared w)
      (Lowering.run Builder.target t.sender p Builder.empty) :=
    Ends.bind (R.operations_mirrors t.sender List.drop_zero hstart)
      fun r hr => .ok ⟨r.2, rfl, hr⟩
  refine hlower.bind ?_
  rintro _ ⟨w, rfl, hend⟩
  rw [Builder.configure_full hend.unset hfull]
  refine .ok ⟨hend.room, ⟨hend.inputs, ?_⟩, rfl, rfl⟩
  have := hend.commands
  rwa [List.take_length] at this

theorem exists_ofProgram_of_recalled (hroom : t.unshared.length ≤ Limited.limit) :
    ∃ t', ofProgram p ⟨t.sender, t.gasBudget⟩ = .ok t' ∧ Renumbers t.unshared t t' ∧
      t'.sender = t.sender ∧ t'.gasBudget = t.gasBudget := by
  obtain ⟨t', ht', -, hrest⟩ :=
    (ofProgram_of_recalled h hp hsender).exists_ok fun _ => Nat.not_lt.mpr hroom
  exact ⟨t', ht', hrest⟩

end

end TxGraph.Transaction
