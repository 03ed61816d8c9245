import Mathlib.Data.List.Infix
import Mathlib.Data.List.Nodup
import TxGraph.Command.Basic
import TxGraph.Proofs.Text

/-!
# Ports of commands

The ports that a command has for values stand alone, or are the members of a numbered group. Which
ids there are is fixed (`inputIds`, `inputGroups`, `outputIds`, `outputGroups`), so what holds of
the ids of all ports is shown once for each of these.
-/

namespace TxGraph

namespace Port

@[simp] theorem id_ioIn (id : String) (type : DataType) : (ioIn id type).id = id := rfl

@[simp] theorem id_ioOut (id : String) (type : DataType) : (ioOut id type).id = id := rfl

theorem isIoOut_of_isIoIn {p : Port} (h : p.isIoIn = true) : p.isIoOut = false := by
  simp_all [isIoIn, isIoOut]

end Port

namespace Command

variable {group name : String}

theorem map_zipIdx_snd {α β : Type} (f : Nat → β) (xs : List α) :
    (xs.zipIdx.map fun x => f x.2) = (List.range xs.length).map f := by
  rw [List.range_eq_range', ← List.zipIdx_map_snd 0 xs, List.map_map]
  rfl

theorem map_id_numbered_ioIn (group : String) (types : List DataType) :
    (numbered Port.ioIn group types).map Port.id =
      (List.range types.length).map (indexed group) := by
  simp [numbered, Function.comp_def, map_zipIdx_snd]

theorem map_id_numbered_ioOut (group : String) (types : List DataType) :
    (numbered Port.ioOut group types).map Port.id =
      (List.range types.length).map (indexed group) := by
  simp [numbered, Function.comp_def, map_zipIdx_snd]

theorem map_id_typeArgPorts (names : List String) :
    (typeArgPorts names).map Port.id = (List.range names.length).map (indexed typeArgIn) := by
  simp [typeArgPorts, Function.comp_def, map_zipIdx_snd]

theorem map_id_groupPorts (expanded : Bool) (group vector : String) (count : Nat)
    (elem : DataType) : (groupPorts expanded group vector count elem).map Port.id =
      if expanded then (List.range count).map (indexed group) else [vector] := by
  cases expanded <;> simp [groupPorts, map_id_numbered_ioIn]

inductive Among (ids groups : List String) : String → Prop
  | single {id : String} (h : id ∈ ids) : Among ids groups id
  | member {group : String} (h : group ∈ groups) (i : Nat) : Among ids groups (indexed group i)

theorem Among.of {ids groups : List String} {id : String} (h : Among ids groups id)
    {P : String → Prop} (hids : ∀ id ∈ ids, P id)
    (hgroups : ∀ group ∈ groups, ∀ i, P (indexed group i)) : P id := by
  cases h with
  | single h => exact hids _ h
  | member h i => exact hgroups _ h i

def inputIds : List String :=
  [coinIn, destinationIn, sourcesIn, recipientIn, objectsIn, elemsIn, ticketIn]

def inputGroups : List String :=
  [amountIn, sourceIn, objectIn, elemIn, typeArgIn, argIn]

def outputIds : List String :=
  [vectorOut, upgradeCapOut, receiptOut]

def outputGroups : List String :=
  [coinOut, returnOut]

theorem forall_mem_numbered {P : Port → Prop} {port : String → DataType → Port} {group : String}
    (h : ∀ i type, P (port (indexed group i) type)) (types : List DataType) :
    ∀ q ∈ numbered port group types, P q := by
  intro q hq
  obtain ⟨⟨type, i⟩, -, rfl⟩ := List.mem_map.mp hq
  exact h i type

theorem among_of_mem_inputPorts {c : Command} :
    ∀ q ∈ c.inputPorts, q.isIoIn = true ∧ Among inputIds inputGroups q.id := by
  have hnumbered {group : String} (h : group ∈ inputGroups) (types : List DataType) :
      ∀ q ∈ numbered Port.ioIn group types, q.isIoIn = true ∧ Among inputIds inputGroups q.id :=
    forall_mem_numbered (fun i _ => ⟨rfl, .member h i⟩) types
  have hgroup {group vector : String} (h : group ∈ inputGroups) (hvector : vector ∈ inputIds)
      {expanded : Bool} {count : Nat} {elem : DataType} :
      ∀ q ∈ groupPorts expanded group vector count elem,
        q.isIoIn = true ∧ Among inputIds inputGroups q.id := by
    unfold groupPorts
    split
    · exact hnumbered h _
    · exact List.forall_mem_singleton.mpr ⟨rfl, .single hvector⟩
  cases c with
  | splitCoins =>
    exact List.forall_mem_cons.mpr ⟨⟨rfl, .single (by decide)⟩, hnumbered (by decide) _⟩
  | mergeCoins =>
    exact List.forall_mem_cons.mpr ⟨⟨rfl, .single (by decide)⟩, hgroup (by decide) (by decide)⟩
  | transferObjects =>
    exact List.forall_mem_append.mpr ⟨hgroup (by decide) (by decide),
      List.forall_mem_singleton.mpr ⟨rfl, .single (by decide)⟩⟩
  | makeMoveVec => exact hgroup (by decide) (by decide)
  | moveCall =>
    refine List.forall_mem_append.mpr ⟨fun q hq => ?_, hnumbered (by decide) _⟩
    obtain ⟨⟨name, i⟩, -, rfl⟩ := List.mem_map.mp hq
    exact ⟨rfl, .member (by decide) i⟩
  | publish => exact List.forall_mem_nil _
  | upgrade => exact List.forall_mem_singleton.mpr ⟨rfl, .single (by decide)⟩

theorem among_of_mem_outputPorts {c : Command} :
    ∀ q ∈ c.outputPorts, q.isIoOut = true ∧ Among outputIds outputGroups q.id := by
  cases c with
  | splitCoins => exact forall_mem_numbered (fun i _ => ⟨rfl, .member (by decide) i⟩) _
  | mergeCoins => exact List.forall_mem_nil _
  | transferObjects => exact List.forall_mem_nil _
  | makeMoveVec =>
    exact List.forall_mem_singleton.mpr ⟨rfl, .single (show vectorOut ∈ outputIds by decide)⟩
  | moveCall => exact forall_mem_numbered (fun i _ => ⟨rfl, .member (by decide) i⟩) _
  | publish => exact List.forall_mem_singleton.mpr ⟨rfl, .single (by decide)⟩
  | upgrade => exact List.forall_mem_singleton.mpr ⟨rfl, .single (by decide)⟩

theorem filter_isIoIn_ports (c : Command) : c.ports.filter Port.isIoIn = c.inputPorts := by
  have hin : c.inputPorts.filter Port.isIoIn = c.inputPorts :=
    List.filter_eq_self.mpr fun q hq => (among_of_mem_inputPorts q hq).1
  have hout : c.outputPorts.filter Port.isIoIn = [] := by
    refine List.filter_eq_nil_iff.mpr fun q hq hin => ?_
    simpa [(among_of_mem_outputPorts q hq).1] using Port.isIoOut_of_isIoIn hin
  have hflow : Port.flowIn.isIoIn = false ∧ Port.flowOut.isIoIn = false := ⟨rfl, rfl⟩
  simp [ports, hin, hout, hflow]

theorem filter_isIoOut_ports (c : Command) : c.ports.filter Port.isIoOut = c.outputPorts := by
  have hout : c.outputPorts.filter Port.isIoOut = c.outputPorts :=
    List.filter_eq_self.mpr fun q hq => (among_of_mem_outputPorts q hq).1
  have hin : c.inputPorts.filter Port.isIoOut = [] := by
    refine List.filter_eq_nil_iff.mpr fun q hq => ?_
    simp [Port.isIoOut_of_isIoIn (among_of_mem_inputPorts q hq).1]
  have hflow : Port.flowIn.isIoOut = false ∧ Port.flowOut.isIoOut = false := ⟨rfl, rfl⟩
  simp [ports, hin, hout, hflow]

/-! ## Ids -/

theorem indexed_inj {i j : Nat} : indexed group i = indexed group j ↔ i = j := by
  simp [indexed]

theorem nodup_indexed (group : String) (n : Nat) :
    ((List.range n).map (indexed group)).Nodup :=
  List.Nodup.map (fun _ _ h => indexed_inj.mp h) List.nodup_range

theorem prefix_indexed (group : String) (i : Nat) : group.toList <+: (indexed group i).toList := by
  simp [indexed]

theorem Among.starts {ids groups : List String} {id : String} (h : Among ids groups id)
    {start : List Char} (hids : ∀ id ∈ ids, start <+: id.toList)
    (hgroups : ∀ group ∈ groups, start <+: group.toList) : start <+: id.toList :=
  h.of hids fun group hgroup i => (hgroups group hgroup).trans (prefix_indexed group i)

theorem ne_indexed (h : ¬ group.toList <+: name.toList) (i : Nat) : name ≠ indexed group i := by
  rintro rfl
  exact h (prefix_indexed group i)

theorem indexed_ne_indexed {other : String} (h : ¬ group.toList <+: other.toList)
    (h' : ¬ other.toList <+: group.toList) (i j : Nat) : indexed group i ≠ indexed other j := by
  intro heq
  have hother := prefix_indexed other j
  rw [← heq] at hother
  rcases List.prefix_or_prefix_of_prefix (prefix_indexed group i) hother with hp | hp
  · exact h hp
  · exact h' hp

theorem nodup_cons_indexed (h : ¬ group.toList <+: name.toList) (n : Nat) :
    (name :: (List.range n).map (indexed group)).Nodup := by
  refine List.nodup_cons.mpr ⟨fun hmem => ?_, nodup_indexed group n⟩
  obtain ⟨i, -, heq⟩ := List.mem_map.mp hmem
  exact ne_indexed h i heq.symm

theorem nodup_groupPorts (expanded : Bool) (group vector : String) (count : Nat) (elem : DataType) :
    ((groupPorts expanded group vector count elem).map Port.id).Nodup := by
  rw [map_id_groupPorts]
  split
  · exact nodup_indexed _ _
  · exact List.nodup_singleton _

theorem nodup_cons_groupPorts {vector : String} (h : ¬ group.toList <+: name.toList)
    (hvector : name ≠ vector) (expanded : Bool) (count : Nat) (elem : DataType) :
    (name :: (groupPorts expanded group vector count elem).map Port.id).Nodup := by
  rw [map_id_groupPorts]
  split
  · exact nodup_cons_indexed h _
  · simpa using hvector

theorem nodup_inputPorts (c : Command) : (c.inputPorts.map Port.id).Nodup := by
  cases c with
  | splitCoins amounts =>
    rw [inputPorts, List.map_cons, map_id_numbered_ioIn]
    exact nodup_cons_indexed (by decide) _
  | mergeCoins =>
    rw [inputPorts, List.map_cons]
    exact nodup_cons_groupPorts (by decide) (by decide) _ _ _
  | transferObjects =>
    rw [inputPorts, List.map_append]
    exact List.nodup_append_comm.mp (nodup_cons_groupPorts (by decide) (by decide) _ _ _)
  | makeMoveVec => exact nodup_groupPorts _ _ _ _ _
  | moveCall call =>
    rw [inputPorts, List.map_append, map_id_typeArgPorts, map_id_numbered_ioIn]
    refine List.nodup_append.mpr ⟨nodup_indexed _ _, nodup_indexed _ _, ?_⟩
    rintro _ ha _ hb rfl
    obtain ⟨i, -, rfl⟩ := List.mem_map.mp ha
    obtain ⟨j, -, heq⟩ := List.mem_map.mp hb
    exact indexed_ne_indexed (by decide) (by decide) _ _ heq
  | publish => exact List.nodup_nil
  | upgrade => exact List.nodup_singleton _

theorem nodup_outputPorts (c : Command) : (c.outputPorts.map Port.id).Nodup := by
  cases c with
  | splitCoins amounts =>
    rw [outputPorts, map_id_numbered_ioOut]
    exact nodup_indexed _ _
  | moveCall call =>
    rw [outputPorts, map_id_numbered_ioOut]
    exact nodup_indexed _ _
  | _ => simp [outputPorts]

theorem nodup_portIds (c : Command) : (c.ports.map Port.id).Nodup := by
  have hin : ∀ id ∈ c.inputPorts.map Port.id, "in_".toList <+: id.toList :=
    List.forall_mem_map.mpr fun q hq =>
      (among_of_mem_inputPorts q hq).2.starts (by decide) (by decide)
  have hout : ∀ id ∈ c.outputPorts.map Port.id, "out_".toList <+: id.toList :=
    List.forall_mem_map.mpr fun q hq =>
      (among_of_mem_outputPorts q hq).2.starts (by decide) (by decide)
  -- the ids of flow ports start differently
  have hflow {id : String} (h₁ : ¬ "in_".toList <+: id.toList) (h₂ : ¬ "out_".toList <+: id.toList) :
      id ∉ c.inputPorts.map Port.id ++ c.outputPorts.map Port.id := fun hid =>
    (List.mem_append.mp hid).elim (fun hid => h₁ (hin id hid)) fun hid => h₂ (hout id hid)
  rw [ports, List.map_cons, List.map_cons, List.map_append]
  refine List.nodup_cons.mpr ⟨?_, List.nodup_cons.mpr ⟨hflow (by decide) (by decide), ?_⟩⟩
  · exact List.not_mem_cons_of_ne_of_not_mem (by decide) (hflow (by decide) (by decide))
  · refine List.nodup_append.mpr ⟨c.nodup_inputPorts, c.nodup_outputPorts, ?_⟩
    rintro id hid _ hid' rfl
    rcases List.prefix_or_prefix_of_prefix (hin id hid) (hout id hid') with h | h <;>
      revert h <;> decide

end Command

end TxGraph
