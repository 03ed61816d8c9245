import TxGraph.Proofs.Lowering.Gathering

/-!
# Arguments in drafts

Operands are resolved and encoded in steps that keep a draft sound. Each step says for which kind
its arguments are ready, and that they meet the new inputs in the order of their numbers if no
command had to be added.
-/

namespace TxGraph.Lowering

open Transaction (Builder)

/-! ## Resolving -/

theorem Evaluates.commands {w w' : Draft} {value : Operand} {r : Resolved TxArg} :
    Evaluates w value r w' → w'.commands = w.commands
  | .constant _ | .integer _ _ | .bound _ => rfl
  | .object _ h => by cases h <;> rfl
  | .init _ _ h => h.commands
  | .vector h => go h
where
  go {w w' : Draft} {items : List Operand} {rs : List (Resolved TxArg)} :
      EvaluatesAll w items rs w' → w'.commands = w.commands
    | .nil => rfl
    | .cons h hrest => (go hrest).trans h.commands

theorem Evaluates.plain {w w' : Draft} {value : Operand} {r : Resolved TxArg} :
    Evaluates w value r w' → value.Plain → value.NoBytes →
      w' = w ∧ ∃ v, r = .literal v ∧ v.NoBytes
  | .constant k, _, h => ⟨rfl, _, rfl, by cases k <;> exact h⟩
  | .integer _ _, _, h => ⟨rfl, _, rfl, h⟩
  | .object _ _, h, _ | .bound _, h, _ | .init _ _ _, h, _ => h.elim
  | .vector h, hplain, hbytes => by
    obtain ⟨hw, vs, rfl, hvs⟩ := go h hplain hbytes
    refine ⟨hw, .list vs, ?_, Literal.noBytes_list.mpr hvs⟩
    rw [Resolved.vector, Resolved.literals?_map]
where
  go {w w' : Draft} {items : List Operand} {rs : List (Resolved TxArg)} :
      EvaluatesAll w items rs w' → Operand.Plain.all items →
      Operand.Leaves.all (fun l => ∀ bs, l ≠ .bytes bs) items →
      w' = w ∧ ∃ vs, rs = vs.map .literal ∧ ∀ v ∈ vs, v.NoBytes
    | .nil, _, _ => ⟨rfl, [], rfl, nofun⟩
    | .cons h hrest, hplain, hbytes => by
      obtain ⟨rfl, v, rfl, hv⟩ := h.plain hplain.1 hbytes.1
      obtain ⟨rfl, vs, rfl, hvs⟩ := go hrest hplain.2 hbytes.2
      exact ⟨rfl, v :: vs, rfl, List.forall_mem_cons.mpr ⟨hv, hvs⟩⟩

section

variable {rule : TxCommand.Rule}
variable {kinds : UInt16 → ParamKind} {w w' : Draft}

theorem Obtains.reaches {arg : TxArg} (h : Obtains w arg w') : Reaches rule kinds w w' fun _ =>
      arg.Stands w'.inputs w'.commands ∧ Scans w [arg] w' := by
  intro hw hmemo
  cases h with
  | gas => exact ⟨kinds, .refl kinds w, hw, hmemo, .gasCoin, fun _ => rfl⟩
  | known h =>
    have hfew := hw.tidy.fewInputs
    have hlt := lt_of_getElem? h
    have hindex := toNat_index (hlt.trans_le hfew)
    refine ⟨kinds, .refl kinds w, hw, hmemo, .object (by rwa [hindex]), fun _ => ?_⟩
    exact note_indices_old hfew (by rwa [hindex])
  | @new _ id hid hnew hroom =>
    have hext : Extends kinds w kinds (w.addInput (.object id)) := .addInput _ fun _ _ => rfl
    have hlast : (w.inputs ++ [.object id])[(UInt16.ofNat w.inputs.length).toNat]? =
        some (.object id) := by
      rw [toNat_index hroom, List.getElem?_concat_length]
    refine ⟨kinds, hext, hw.of_extends hext ?_, hext.memoReady rfl hmemo,
      .object (inputs_addInput _ ▸ hlast), fun _ => ?_⟩
    · rw [inputs_addInput]
      exact hw.tidy.pushObject hid hnew hroom
    · rw [inputs_addInput, List.length_append, List.length_singleton]
      exact note_indices_new hroom

/-- A value in layers keeps its layers, and its objects are new inputs in their order. -/
theorem Evaluates.layered {kinds : UInt16 → ParamKind} {w w' : Draft} {value : Operand}
    {r : Resolved TxArg} {depth : Nat} : Evaluates w value r w' → value.Layered depth →
    Reaches rule kinds w w' fun _ =>
      r.Layered (TxArg.Stands w'.inputs w'.commands) depth ∧ Scans w r.handles w'
  | .constant _, h | .integer _ _, h | .bound _, h | .init _ _ _, h => by cases depth <;> exact h.elim
  | .object _ h, hlayered => by
    cases depth with
    | zero => exact h.reaches
    | succ depth => exact hlayered.elim
  | .vector h, hlayered => by
    cases depth with
    | zero => exact hlayered.elim
    | succ depth =>
      rw [Resolved.handles_vector]
      exact (go h hlayered).mono fun _ _ ⟨hrs, hscans⟩ => ⟨Resolved.layered_vector hrs, hscans⟩
where
  go {kinds : UInt16 → ParamKind} {w w' : Draft} {items : List Operand}
      {rs : List (Resolved TxArg)} {depth : Nat} : EvaluatesAll w items rs w' →
      (∀ item ∈ items, item.Layered depth) → Reaches rule kinds w w' fun _ =>
        (∀ r ∈ rs, r.Layered (TxArg.Stands w'.inputs w'.commands) depth) ∧
        Scans w (Resolved.handles.all rs) w'
    | .nil, _ => .refl fun _ => ⟨nofun, .nil w⟩
    | .cons h hrest, hitems => by
      obtain ⟨hitem, hothers⟩ := List.forall_mem_cons.mp hitems
      refine (h.layered hitem).trans fun _ hext₁ ⟨hr, hscans₁⟩ => ?_
      refine (go hrest hothers).mono fun _ hext₂ ⟨hrs, hscans₂⟩ => ?_
      exact ⟨List.forall_mem_cons.mpr ⟨hr.mono fun arg => hext₂.stands, hrs⟩,
        hscans₁.append hscans₂ hext₁.commands hext₂.commands⟩

/-- What an operand is resolved to can be given, and its objects are new inputs in their order. -/
theorem Evaluates.reaches {value : Operand} {r : Resolved TxArg} (h : Evaluates w value r w')
    (heven : value.Even) (hbytes : value.NoBytes) : Reaches rule kinds w w' fun _ =>
      r.Good (TxArg.Stands w'.inputs w'.commands) ∧ Scans w r.handles w' := by
  have hown {value : Operand} (h : Evaluates w value r w') (heven : value.Even)
      (hbytes : value.NoBytes) (hclosed : ∀ name, value ≠ .ref name) :
      Reaches rule kinds w w' fun _ =>
        r.Good (TxArg.Stands w'.inputs w'.commands) ∧ Scans w r.handles w' := by
    cases heven with
    | ref name => exact absurd rfl (hclosed name)
    | plain hplain =>
      obtain ⟨rfl, v, rfl, hv⟩ := h.plain hplain hbytes
      exact .refl fun _ => ⟨.literal hv, .nil w'⟩
    | layered hlayered =>
      exact (h.layered hlayered).mono fun _ _ ⟨hr, hscans⟩ => ⟨hr.good, hscans⟩
  cases value with
  | ref name =>
    intro hw hmemo
    cases h with
    | @bound _ _ arg h =>
      have hstands := hw.bound name arg h
      have hfits : arg.Fits kinds w.inputs w.commands .handle := .inl hstands
      exact ⟨kinds, .refl kinds w, hw, hmemo, .handle hstands, fun _ => hw.note_eq hfits⟩
    | @init _ _ _ value _ h hclosed hvalue =>
      obtain ⟨heven, hbytes⟩ := hw.init name value h
      exact hown hvalue heven hbytes hclosed hw hmemo
  | _ => exact hown h heven hbytes nofun

end

/-! ## Encoding -/

/-- How an argument comes from a resolved value: if no command is added, a handle is the argument
and a literal a new input. -/
def Settles (w : Draft) (value : Resolved TxArg) (arg : TxArg)
    (w' : Draft) : Prop :=
  w'.commands.length = w.commands.length →
    value.handles = [arg] ∧ w'.inputs = w.inputs ∨ value.handles = [] ∧ Scans w [arg] w'

section

variable {rule : TxCommand.Rule} {kinds : UInt16 → ParamKind} {w w' : Draft}
variable {kind : ParamKind} {arg : TxArg} {args : List TxArg}
variable {value : Literal} {symbol : Option String} {values : List Operand}

theorem Sound.addPure (hw : Sound rule kinds w) (hkind : kind.Declared) (hvalue : value.NoBytes)
    {found : PureValue} (hfound : PureValue.encode kind value = .ok found)
    (hroom : w.inputs.length < Limited.limit) :
    ∃ kinds', Extends kinds w kinds' (w.addInput (.pure found.type found.bytes)) ∧
      Sound rule kinds' (w.addInput (.pure found.type found.bytes)) ∧
      Ready kinds' w.inputs.length (w.addInput (.pure found.type found.bytes)) kind
        (.input (UInt16.ofNat w.inputs.length)) ∧
      Scans w [.input (UInt16.ofNat w.inputs.length)]
        (w.addInput (.pure found.type found.bytes)) := by
  have hindex := toNat_index hroom
  have hext : Extends kinds w (Function.update kinds (UInt16.ofNat w.inputs.length) kind)
      (w.addInput (.pure found.type found.bytes)) := by
    refine .addInput _ fun i hi => Function.update_of_ne ?_ _ _
    rintro rfl
    omega
  refine ⟨_, hext, hw.of_extends hext ?_,
    .inr ⟨_, rfl, hindex.ge, ⟨⟨found.type, found.bytes, ?_⟩, ?_⟩, ?_⟩, fun _ => ?_⟩
  · rw [inputs_addInput]
    exact hw.tidy.pushPure hkind ⟨value, hvalue, hfound⟩ hroom
  · rw [inputs_addInput, hindex, List.getElem?_concat_length]
  · exact Function.update_self ..
  · exact hw.tidy.unused_of_le hindex.ge
  · rw [inputs_addInput, List.length_append, List.length_singleton]
    exact note_indices_new hroom

theorem Records.reaches (h : Records kind symbol w value arg w') (hkind : kind.Declared)
    (hvalue : value.NoBytes) :
    Reaches rule kinds w w' fun kinds' => Ready kinds' 0 w' kind arg ∧ Scans w [arg] w' ∧
      (symbol = none → Ready kinds' w.inputs.length w' kind arg ∧ w'.memo = w.memo ∧
        ∃ sender found, PureValue.encode kind (value.given sender) = .ok found) := by
  intro hw hmemo
  cases h with
  | again hsymbol h =>
    have hready := hmemo _ h
    refine ⟨kinds, .refl kinds w, hw, hmemo, hready, fun _ => hw.note_eq hready.fits, fun hnone => ?_⟩
    rw [hsymbol] at hnone
    cases hnone
  | @anew sender found memo hfound hroom hremembered hnone =>
    obtain ⟨kinds', hext, hw', hready, hscans⟩ :=
      hw.addPure hkind (hvalue.given sender) hfound hroom
    refine ⟨kinds', ⟨hext.inputs, hext.commands, hext.env, hext.sender, hext.kinds, hext.fresh⟩,
      ⟨hw'.tidy, hw'.bound, hw'.init, hw'.unsigned⟩, fun e he => ?_, hready.least_zero, hscans,
      fun h => ⟨hready, hnone h, sender, found, hfound⟩⟩
    rcases hremembered e he with hold | ⟨hsame, hnew⟩
    · exact hext.ready (hmemo e hold)
    · rw [hsame, hnew]
      exact hready.least_zero

theorem Sound.addVector (hw : Sound rule kinds w) (hkind : kind.Declared) {least : Nat}
    (hargs : ∀ arg ∈ args, Ready kinds least w kind arg ∧
      (¬ kind.Solid → arg.Stands w.inputs w.commands)) (hroom : w.commands.length < Limited.limit) :
    Sound rule kinds (w.addCommand (.makeMoveVec kind.pureType? args)) ∧
      (TxArg.result (UInt16.ofNat w.commands.length)).Stands
        (w.addCommand (.makeMoveVec kind.pureType? args)).inputs
        (w.addCommand (.makeMoveVec kind.pureType? args)).commands := by
  refine ⟨hw.addCommand (tidy_of_ready rfl (forall₂_replicate fun a ha => ?_)
    (formed_makeMoveVec hkind args)) hroom,
    stands_resultAt (c := .makeMoveVec kind.pureType? args) Nat.one_pos⟩
  obtain ⟨hready, hstands⟩ := hargs a ha
  by_cases hsolid : kind.Solid
  · rw [Context.vectorElemKind_pureType hsolid]
    exact hready.least_zero
  · exact .inl (hstands hsolid)

/-- Elements of a list become arguments without touching what is remembered. Those of a kind that
is not solid stand by themselves. -/
theorem Delivers.layered {kinds : UInt16 → ParamKind} {kind : ParamKind} {w w' : Draft}
    {value : Resolved TxArg} {arg : TxArg} {depth : Nat} :
    Delivers kind none w value arg w' → kind.Declared →
    value.Layered (TxArg.Stands w.inputs w.commands) depth →
    Reaches rule kinds w w' fun kinds' =>
      (Ready kinds' w.inputs.length w' kind arg ∧
        (¬ kind.Solid → arg.Stands w'.inputs w'.commands)) ∧
      w'.memo = w.memo ∧
      (value.isLiteral = false → depth ≠ 0 → w.commands.length < w'.commands.length)
  | .handle arg, _, h => by
    cases depth with
    | zero => exact .refl fun _ => ⟨⟨.inl h, fun _ => h⟩, rfl, fun _ hne => absurd rfl hne⟩
    | succ depth => exact h.elim
  | @Delivers.literal _ _ _ _ _ value h, hkind, hlayered => by
    have hollow : value.Hollow depth := by cases depth <;> exact hlayered
    refine (h.reaches hkind hollow.noBytes).mono fun kinds' _ ⟨_, _, hnone⟩ => ?_
    obtain ⟨hready, hmemo, sender, found, hfound⟩ := hnone rfl
    exact ⟨⟨hready, fun hnot => absurd ((hollow.given sender).solid hkind hfound) hnot⟩, hmemo, nofun⟩
  | @Delivers.list _ _ _ w₁ _ args h hroom, hkind, hlayered => by
    cases depth with
    | zero => exact hlayered.elim
    | succ depth =>
      intro hw hmemo
      have hkind' := Context.declared_elemKind hkind
      obtain ⟨kinds₁, hext, hw₁, -, hargs, hmemo₁, -⟩ := go h hkind' hlayered.1 hw hmemo
      obtain ⟨hsound, hstands⟩ := hw₁.addVector hkind' hargs hroom
      have hext' : Extends kinds w kinds₁ (w₁.addCommand
          (.makeMoveVec (Context.elemKind kind).pureType? args)) :=
        hext.addCommand fun i hi hpure => ((hargs (.input i) hi).1.unused hpure).1
      refine ⟨kinds₁, hext', hsound, hext'.memoReady hmemo₁ hmemo,
        ⟨.inl hstands, fun _ => hstands⟩, hmemo₁, fun _ _ => ?_⟩
      have := hext.commands.length_le
      rw [commands_addCommand, List.length_append, List.length_singleton]
      omega
where
  go {kinds : UInt16 → ParamKind} {kind : ParamKind} {w w' : Draft}
      {items : List (Resolved TxArg)} {args : List TxArg} {depth : Nat} :
      DeliversAll kind w items args w' → kind.Declared →
      (∀ item ∈ items, item.Layered (TxArg.Stands w.inputs w.commands) depth) →
      Reaches rule kinds w w' fun kinds' =>
        (∀ arg ∈ args, Ready kinds' w.inputs.length w' kind arg ∧
          (¬ kind.Solid → arg.Stands w'.inputs w'.commands)) ∧
        w'.memo = w.memo ∧
        ((∃ item ∈ items, item.isLiteral = false) → depth ≠ 0 →
          w.commands.length < w'.commands.length)
    | .nil, _, _ => .refl fun _ => ⟨nofun, rfl, nofun⟩
    | .cons h hrest, hkind, hitems => by
      obtain ⟨hitem, hothers⟩ := List.forall_mem_cons.mp hitems
      refine (h.layered hkind hitem).trans fun _ hext₁ ⟨⟨harg, hstands⟩, hmemo₁, hmore₁⟩ => ?_
      refine (go hrest hkind fun r hr => (hothers r hr).mono fun _ => hext₁.stands).mono
        fun _ hext₂ ⟨hargs, hmemo₂, hmore₂⟩ => ?_
      refine ⟨List.forall_mem_cons.mpr ⟨⟨hext₂.ready harg, fun hnot => hext₂.stands (hstands hnot)⟩,
        fun a ha => ⟨(hargs a ha).1.mono_least hext₁.inputs.length_le, (hargs a ha).2⟩⟩,
        hmemo₂.trans hmemo₁, fun ⟨r, hr, hmixed⟩ hdepth => ?_⟩
      have hle₁ := hext₁.commands.length_le
      have hle₂ := hext₂.commands.length_le
      rcases List.mem_cons.mp hr with rfl | hr
      · have := hmore₁ hmixed hdepth
        omega
      · have := hmore₂ ⟨r, hr, hmixed⟩ hdepth
        omega

theorem Delivers.reaches {value : Resolved TxArg} (h : Delivers kind symbol w value arg w')
    (hkind : kind.Declared) (hgood : value.Good (TxArg.Stands w.inputs w.commands)) :
    Reaches rule kinds w w' fun kinds' => Ready kinds' 0 w' kind arg ∧ Settles w value arg w' := by
  cases h with
  | handle arg =>
    cases hgood with
    | handle ha => exact .refl fun _ => ⟨.inl ha, fun _ => .inl ⟨rfl, rfl⟩⟩
  | literal h =>
    cases hgood with
    | literal hv =>
      exact (h.reaches hkind hv).mono fun _ _ ⟨hready, hscans, _⟩ =>
        ⟨hready, fun _ => .inr ⟨rfl, hscans⟩⟩
  | list h hroom =>
    cases hgood with
    | @list _ depth hitems hmixed =>
      have hlayers : (Resolved.list _).Layered (TxArg.Stands w.inputs w.commands) (depth + 1) :=
        ⟨hitems, hmixed⟩
      exact (Delivers.layered (.list h hroom) hkind hlayers).mono
        fun _ _ ⟨⟨hready, _⟩, _, hmore⟩ => ⟨hready.least_zero,
          fun hsame => absurd hsame (Nat.ne_of_gt (hmore rfl (Nat.succ_ne_zero _)))⟩

/-! ## Operands by use -/

theorem Gives.reaches {value : Operand} (h : Gives kind w value arg w') (hkind : kind.Declared)
    (heven : value.Even) (hbytes : value.NoBytes) :
    Reaches rule kinds w w' fun kinds' => Ready kinds' 0 w' kind arg ∧ Scans w [arg] w' := by
  obtain ⟨r, w₁, hr, harg⟩ := h
  refine (hr.reaches heven hbytes).trans fun _ _ ⟨hgood, hscans₁⟩ => ?_
  refine (harg.reaches hkind hgood).mono fun _ _ ⟨hready, hsettles⟩ => ⟨hready, fun hsame => ?_⟩
  have hobjects := hscans₁ (by rw [hr.commands])
  rw [← hr.commands] at hsame
  rcases hsettles hsame with ⟨hvalue, hinputs⟩ | ⟨hvalue, hscans₂⟩ <;> rw [hvalue] at hobjects
  · rw [hobjects, hinputs]
  · rw [← hscans₂ hsame, ← hobjects]
    rfl

theorem Evaluates.handle_reaches {value : Operand} (h : Evaluates w value (.handle arg) w')
    (heven : value.Even) (hbytes : value.NoBytes) :
    Reaches rule kinds w w' fun _ => arg.Stands w'.inputs w'.commands ∧ Scans w [arg] w' := by
  refine (h.reaches heven hbytes).mono fun _ _ ⟨hgood, hscans⟩ => ?_
  cases hgood with
  | handle ha => exact ⟨ha, hscans⟩

theorem GivesAll.reaches {values : List Argument} (h : GivesAll w values args w')
    (hvalues : ∀ a ∈ values, a.kind.Declared ∧ a.value.Even ∧ a.value.NoBytes) :
    Reaches rule kinds w w' fun kinds' =>
      List.Forall₂ (fun arg kind => Ready kinds' 0 w' kind arg) args (values.map Argument.kind) ∧
        Scans w args w' := by
  induction h generalizing kinds with
  | nil => exact .refl fun _ => ⟨.nil, .nil _⟩
  | cons h _ ih =>
    obtain ⟨⟨hkind, heven, hbytes⟩, hrest⟩ := List.forall_mem_cons.mp hvalues
    refine (h.reaches hkind heven hbytes).trans fun _ hext₁ ⟨hready, hscans₁⟩ => ?_
    refine (ih hrest).mono fun _ hext₂ ⟨hargs, hscans₂⟩ => ?_
    exact ⟨.cons (hext₂.ready hready) hargs, hscans₁.append hscans₂ hext₁.commands hext₂.commands⟩

/-! ## Groups -/

theorem DeliversAll.literals (hkind : kind.Declared) {values : List Literal}
    (h : DeliversAll kind w (values.map .literal) args w') (hvalues : ∀ v ∈ values, v.NoBytes) :
    Reaches rule kinds w w' fun kinds' =>
      (∀ arg ∈ args, Ready kinds' 0 w' kind arg) ∧ Scans w args w' := by
  induction values generalizing kinds w args with
  | nil =>
    cases h
    exact .refl fun _ => ⟨nofun, .nil _⟩
  | cons value rest ih =>
    obtain ⟨hvalue, hothers⟩ := List.forall_mem_cons.mp hvalues
    cases h with
    | cons h hrest =>
      cases h with
      | literal h =>
        refine (h.reaches hkind hvalue).trans fun _ hext₁ ⟨hready, hscans₁, _⟩ => ?_
        refine (ih hrest hothers).mono fun _ hext₂ ⟨hargs, hscans₂⟩ => ?_
        exact ⟨List.forall_mem_cons.mpr ⟨hext₂.ready hready, hargs⟩,
          hscans₁.append hscans₂ hext₁.commands hext₂.commands⟩

theorem DeliversAll.handles {handles : List TxArg}
    (h : DeliversAll kind w (handles.map .handle) args w') : w' = w ∧ args = handles := by
  induction handles generalizing args with
  | nil =>
    cases h
    exact ⟨rfl, rfl⟩
  | cons arg rest ih =>
    cases h with
    | cons h hrest =>
      cases h
      obtain ⟨rfl, rfl⟩ := ih hrest
      exact ⟨rfl, rfl⟩

theorem Spreads.reaches (hkind : kind.Declared) {group : Group} (h : Spreads kind w group args w')
    (hgroup : ∀ v ∈ group.operands, v.Even ∧ v.NoBytes) :
    Reaches rule kinds w w' fun kinds' =>
      (∀ arg ∈ args, Ready kinds' 0 w' kind arg) ∧ Scans w args w' := by
  cases h with
  | each h =>
    refine (h.reaches (List.forall_mem_map.mpr fun v hv => ⟨hkind, hgroup v hv⟩)).mono
      fun _ _ ⟨hargs, hscans⟩ => ⟨fun arg harg => ?_, hscans⟩
    obtain ⟨kind', hmem, hready⟩ := exists_of_forall₂ hargs harg
    rw [List.map_map] at hmem
    obtain ⟨v, _, rfl⟩ := List.mem_map.mp hmem
    exact hready
  | whole h =>
    obtain ⟨heven, hbytes⟩ := hgroup _ List.mem_cons_self
    exact (h.handle_reaches heven hbytes).mono fun _ _ ⟨ha, hscans⟩ =>
      ⟨List.forall_mem_singleton.mpr (.inl ha), hscans⟩
  | items h hlisted hargs =>
    obtain ⟨heven, hbytes⟩ := hgroup _ List.mem_cons_self
    refine (h.reaches heven hbytes).trans fun _ hext₁ ⟨hgood, hscans₁⟩ => ?_
    cases hlisted with
    | literal vs =>
      cases hgood with
      | literal hv =>
        refine (hargs.literals hkind (Literal.noBytes_list.mp hv)).mono
          fun _ hext₂ ⟨hready, hscans₂⟩ => ⟨hready, ?_⟩
        exact hscans₁.append hscans₂ hext₁.commands hext₂.commands
    | list rs =>
      cases hgood with
      | @list _ depth hitems hmixed =>
        cases depth with
        | zero =>
          have heq := Resolved.eq_handles_of_layered_zero hitems
          rw [heq] at hargs
          obtain ⟨rfl, rfl⟩ := hargs.handles
          refine .refl fun _ => ⟨fun arg harg => .inl ?_, hscans₁⟩
          exact (hitems (.handle arg) (heq ▸ List.mem_map_of_mem harg) :)
        | succ depth =>
          refine (Delivers.layered.go hargs hkind hitems).mono fun _ _ ⟨hready, _, hmore⟩ =>
            ⟨fun arg harg => (hready arg harg).1.least_zero, .of_lt ?_⟩
          rw [← h.commands]
          exact hmore hmixed (Nat.succ_ne_zero _)

theorem NamesTypes.reaches {names : List String} (h : NamesTypes w values names w')
    (hvalues : ∀ v ∈ values, v.Even ∧ v.NoBytes) :
    Reaches rule kinds w w' fun _ => Scans w [] w' := by
  induction h generalizing kinds with
  | nil => exact .refl fun _ => .nil _
  | cons h _ _ ih =>
    obtain ⟨⟨heven, hbytes⟩, hrest⟩ := List.forall_mem_cons.mp hvalues
    refine (h.reaches heven hbytes).trans fun _ hext₁ ⟨_, hscans₁⟩ => ?_
    exact (ih hrest).mono fun _ hext₂ hscans₂ =>
      hscans₁.append hscans₂ hext₁.commands hext₂.commands

theorem NamesTypes.names {names : List String} (h : NamesTypes w values names w') :
    names.length = values.length ∧ ∀ name ∈ names, Text.trim name = name ∧ name ≠ "" := by
  induction h with
  | nil => exact ⟨rfl, nofun⟩
  | @cons _ _ _ _ _ s _ _ hname _ ih =>
    exact ⟨congrArg Nat.succ ih.1, List.forall_mem_cons.mpr ⟨⟨Text.trim_trim s, hname⟩, ih.2⟩⟩

end

end TxGraph.Lowering
