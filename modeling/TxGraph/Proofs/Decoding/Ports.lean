import TxGraph.Proofs.Decoding.Drawing
import TxGraph.Proofs.Program.DataFlow

/-!
# Ports of drawings

The variables and the slots of a drawing ask for ports of their own, and the command has the ports
that the slots ask for.
-/

namespace TxGraph

namespace Decoding

theorem map_port_numbered (name : String) (args : List TxArg) :
    (ArgSlot.numbered name args).map ArgSlot.port =
      (List.range args.length).map (Command.indexed name) := by
  refine List.ext_getElem? fun n => ?_
  by_cases hn : n < args.length <;> simp [ArgSlot.numbered, hn]

theorem map_arg_numbered (name : String) (args : List TxArg) :
    (ArgSlot.numbered name args).map ArgSlot.arg = args := by
  refine List.ext_getElem? fun n => ?_
  simp [ArgSlot.numbered, Option.map_map, Function.comp_def]

theorem map_snd_typeArgs (node : String) (args : List String) :
    (args.mapIdx fun i arg => (typeArgVar node i arg, Command.indexed Command.typeArgIn i)).map
      Prod.snd = (List.range args.length).map (Command.indexed Command.typeArgIn) := by
  refine List.ext_getElem? fun n => ?_
  by_cases hn : n < args.length <;> simp [hn]

variable {c : Context} {k : Nat} {command : TxCommand} {d : Drawing}

def Drawing.ports (d : Drawing) : List String :=
  d.feeds.map Prod.snd ++ d.slots.map ArgSlot.port

theorem nodup_ports (h : Outlines c k command d) : d.ports.Nodup := by
  cases command with
  | unsupported => cases h
  | publish =>
    cases h
    exact List.nodup_nil
  | upgrade =>
    cases h
    exact List.nodup_singleton _
  | splitCoins =>
    cases h
    simp only [Drawing.ports, ArgSlot.ofCommand, List.map_nil, List.nil_append, List.map_cons,
      map_port_numbered, ArgSlot.single]
    exact Command.nodup_cons_indexed (by decide) _
  | mergeCoins =>
    cases h
    simp only [Drawing.ports, ArgSlot.ofCommand, List.map_nil, List.nil_append, List.map_cons,
      map_port_numbered, ArgSlot.single]
    exact Command.nodup_cons_indexed (by decide) _
  | transferObjects =>
    cases h
    simp only [Drawing.ports, ArgSlot.ofCommand, List.map_nil, List.nil_append, List.map_append,
      List.map_cons, map_port_numbered, ArgSlot.single]
    exact List.nodup_append_comm.mp (Command.nodup_cons_indexed (by decide) _)
  | makeMoveVec elem elems =>
    cases h
    unfold drawVector
    split
    · split
      · exact List.nodup_singleton _
      · cases elems <;> simp [Drawing.ports, ArgSlot.single]
    · simp only [Drawing.ports, List.map_nil, List.nil_append, map_port_numbered]
      exact Command.nodup_indexed _ _
  | moveCall =>
    obtain ⟨call, rfl⟩ := h
    simp only [Drawing.ports, drawCall, map_snd_typeArgs, map_port_numbered]
    refine List.nodup_append.mpr ⟨Command.nodup_indexed _ _, Command.nodup_indexed _ _, ?_⟩
    rintro _ ha _ hb rfl
    obtain ⟨i, -, rfl⟩ := List.mem_map.mp ha
    obtain ⟨j, -, heq⟩ := List.mem_map.mp hb
    exact Command.indexed_ne_indexed (by decide) (by decide) _ _ heq

/-! ## What a drawing asks for -/

theorem find?_of_mem_map {ports : List Port} {id : String} (h : id ∈ ports.map Port.id) :
    ∃ port, (ports.find? fun q => q.id == id) = some port := by
  obtain ⟨q, hq, rfl⟩ := List.mem_map.mp h
  cases hfound : ports.find? fun p => p.id == q.id with
  | some port => exact ⟨port, rfl⟩
  | none => simpa using List.find?_eq_none.mp hfound q hq

theorem subset_inputPorts (h : Depicts c k command d) :
    d.slots.map ArgSlot.port ⊆ d.command.inputPorts.map Port.id := by
  have hrange (name : String) {n m : Nat} (hle : n ≤ m) :
      (List.range n).map (Command.indexed name) ⊆ (List.range m).map (Command.indexed name) := by
    intro id hid
    obtain ⟨i, hi, rfl⟩ := List.mem_map.mp hid
    rw [List.mem_range] at hi
    exact List.mem_map_of_mem (List.mem_range.mpr (by omega))
  have hroomy := h.roomy
  replace h := h.outlines
  cases command with
  | unsupported => cases h
  | publish =>
    cases h
    exact List.nil_subset _
  | upgrade =>
    cases h
    exact List.Subset.refl _
  | splitCoins =>
    cases h
    simp only [ArgSlot.ofCommand, List.map_cons, map_port_numbered, ArgSlot.single,
      Command.inputPorts, Command.map_id_numbered_ioIn, List.length_replicate, Port.id_ioIn]
    exact List.cons_subset_cons _ (hrange _ (by omega))
  | mergeCoins =>
    cases h
    simp only [ArgSlot.ofCommand, List.map_cons, map_port_numbered, ArgSlot.single,
      Command.inputPorts, Command.map_id_groupPorts, Command.isExpanded, if_true, Port.id_ioIn]
    exact List.cons_subset_cons _ (hrange _ (by omega))
  | transferObjects =>
    cases h
    simp only [ArgSlot.ofCommand, List.map_append, List.map_cons, List.map_nil, map_port_numbered,
      ArgSlot.single, Command.inputPorts, Command.map_id_groupPorts, Command.isExpanded, if_true,
      Port.id_ioIn]
    exact List.append_subset.mpr ⟨List.subset_append_of_subset_left _ (hrange _ (by omega)),
      List.subset_append_right _ _⟩
  | makeMoveVec elem elems =>
    cases h
    unfold drawVector
    split
    · split
      · exact List.nil_subset _
      · cases elems <;>
          simp [ArgSlot.single, Command.inputPorts, Command.map_id_groupPorts, Command.isExpanded]
    case isFalse hvector =>
      simp [map_port_numbered, Command.inputPorts, Command.map_id_groupPorts, Command.isExpanded,
        hvector]
  | moveCall =>
    obtain ⟨call, rfl⟩ := h
    obtain ⟨-, hargs, -⟩ := hroomy
    simp only [drawCall, map_port_numbered, Command.inputPorts, List.map_append,
      Command.map_id_numbered_ioIn]
    exact List.subset_append_of_subset_right _ (hrange _ hargs)

theorem arg_of_mem_slots (h : Outlines c k command d) {slot : ArgSlot} (hslot : slot ∈ d.slots) :
    slot.arg ∈ command.args := by
  have hnumbered {name : String} {args : List TxArg} (hmem : slot ∈ ArgSlot.numbered name args) :
      slot.arg ∈ args := by
    have := List.mem_map_of_mem (f := ArgSlot.arg) hmem
    rwa [map_arg_numbered] at this
  cases command with
  | unsupported => cases h
  | publish =>
    cases h
    cases hslot
  | upgrade =>
    cases h
    rw [List.mem_singleton.mp hslot]
    exact List.mem_cons_self
  | splitCoins =>
    cases h
    rcases List.mem_cons.mp hslot with rfl | hslot
    · exact List.mem_cons_self
    · exact List.mem_cons_of_mem _ (hnumbered hslot)
  | mergeCoins =>
    cases h
    rcases List.mem_cons.mp hslot with rfl | hslot
    · exact List.mem_cons_self
    · exact List.mem_cons_of_mem _ (hnumbered hslot)
  | transferObjects =>
    cases h
    rcases List.mem_append.mp hslot with hslot | hslot
    · exact List.mem_append_left _ (hnumbered hslot)
    · rw [List.mem_singleton.mp hslot]
      exact List.mem_append_right _ List.mem_cons_self
  | makeMoveVec elem elems =>
    cases h
    unfold drawVector at hslot
    split at hslot
    · split at hslot
      · cases hslot
      · obtain ⟨arg, harg, rfl⟩ := List.mem_map.mp hslot
        exact List.mem_of_mem_take harg
    · exact hnumbered hslot
  | moveCall =>
    obtain ⟨call, rfl⟩ := h
    exact hnumbered hslot

/-! ## Results of calls -/

theorem reach_le_arity {c : Context} {arg : TxArg} (harg : arg ∈ c.args) (index : UInt16) :
    reach index arg ≤ c.arity index := by
  have hgrows : ∀ (args : List TxArg) (m : Nat),
      m ≤ args.foldl (fun n arg => max n (reach index arg)) m := by
    intro args
    induction args with
    | nil => exact fun m => Nat.le_refl m
    | cons first rest ih => exact fun m => Nat.le_trans (Nat.le_max_left _ _) (ih _)
  unfold Context.arity
  obtain ⟨before, after, hsplit⟩ := List.append_of_mem harg
  rw [hsplit, List.foldl_append, List.foldl_cons]
  exact Nat.le_trans (Nat.le_max_right _ _) (hgrows after _)

/-- Results have numbers, so not more are used than there are numbers. -/
theorem arity_lt (c : Context) (index : UInt16) : c.arity index < Limited.limit := by
  have hreach (arg : TxArg) : reach index arg < Limited.limit := by
    unfold reach
    split
    · split <;> decide
    · split
      · exact Nat.lt_of_le_of_lt (Nat.min_le_right _ _) (by decide)
      · decide
    · decide
  have go (args : List TxArg) : ∀ m < Limited.limit,
      args.foldl (fun n arg => max n (reach index arg)) m < Limited.limit := by
    induction args with
    | nil => exact fun m hm => hm
    | cons arg rest ih => exact fun m hm => ih _ (Nat.max_lt.mpr ⟨hm, hreach arg⟩)
  exact go c.args 0 (by decide)

theorem exists_result {c : Context} {j : UInt16} {k : Nat} {command : TxCommand} {d : Drawing}
    (hk : j = UInt16.ofNat k) (h : Depicts c k command d)
    (hcall : ∃ package module function typeArgs args,
      command = .moveCall package module function typeArgs args) {arg : TxArg} {r : Nat}
    (harg : arg ∈ c.args) (hr : r < reach j arg) : ∃ port, d.command.outputPorts[r]? = some port := by
  obtain ⟨package, module, function, typeArgs, args, rfl⟩ := hcall
  obtain ⟨call, rfl⟩ := h.outlines
  obtain ⟨-, -, hresults⟩ := h.roomy
  have hlt : r < (drawCall k typeArgs args call).command.outputPorts.length := by
    have := reach_le_arity harg j
    simp only [drawCall, Command.outputPorts, Command.numbered, List.length_map, List.length_zipIdx]
    rw [hk] at this hr
    omega
  exact ⟨_, List.getElem?_eq_getElem hlt⟩

end Decoding

end TxGraph
