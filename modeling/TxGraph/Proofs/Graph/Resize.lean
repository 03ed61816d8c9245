import TxGraph.Proofs.Graph.Prune
import TxGraph.Proofs.Program.DataFlow

/-!
# Resized commands

A command whose number of amounts, sources, objects or elements is changed keeps the ports that it
had and still has, each with its id and its type. So in a graph in which every edge fits, exactly
the edges at ports that have gone are dropped, and nothing else changes.
-/

namespace TxGraph

namespace Command

variable {group : String} {i : Nat}

/-- The number that decides how many ports the command has in its groups. -/
def count? : Command → Option Nat
  | splitCoins amounts => some amounts
  | mergeCoins sources _ => some sources
  | transferObjects objects _ => some objects
  | makeMoveVec _ elems _ => some elems
  | _ => none

def resize (count : Nat) : Command → Command
  | splitCoins _ => splitCoins count
  | mergeCoins _ expanded => mergeCoins count expanded
  | transferObjects _ expanded => transferObjects count expanded
  | makeMoveVec elem _ expanded => makeMoveVec elem count expanded
  | command => command

/-- How many ports a group has for a count. Only a vector can be made of nothing. -/
def groupSize : Command → (count : Nat) → Nat
  | makeMoveVec _ _ _, count => count
  | _, count => max count 1

/-- The groups that have as many ports as the count of their command says. -/
def countedGroups : List String :=
  [amountIn, coinOut, sourceIn, objectIn, elemIn]

/-- The port is one of a counted group, but not of the first `size`. -/
def IsBeyond (size : Nat) (port : String) : Prop :=
  ∃ group ∈ countedGroups, ∃ i, size ≤ i ∧ port = indexed group i

/-! ## Ids of numbered ports -/

/-- The digits of a number hold no underscore, so an id is read in one way. -/
theorem indexed_eq_indexed_iff {other : String} {j : Nat} :
    indexed group i = indexed other j ↔ group = other ∧ i = j := by
  have hdigits (n : Nat) : '_' ∉ n.repr.toList := fun h =>
    absurd (Text.isDigit_of_mem_repr h) (by decide)
  refine ⟨fun h => ?_, fun ⟨hgroup, hi⟩ => by rw [hgroup, hi]⟩
  have hlist := congrArg String.toList h
  simp only [indexed, String.toList_append, List.append_assoc] at hlist
  obtain ⟨hgroup, hnumber⟩ := append_mark_inj (hdigits i) (hdigits j) hlist
  exact ⟨String.toList_inj.mp hgroup, Text.repr_inj.mp (String.toList_inj.mp hnumber)⟩

theorem isBeyond_indexed {size : Nat} (h : group ∈ countedGroups) :
    IsBeyond size (indexed group i) ↔ size ≤ i := by
  constructor
  · rintro ⟨other, -, j, hj, heq⟩
    obtain ⟨-, rfl⟩ := indexed_eq_indexed_iff.mp heq
    exact hj
  · exact fun hi => ⟨group, h, i, hi, rfl⟩

/-- The number behind the name of a group. -/
def numberAfter (group port : String) : Nat :=
  Text.digitsToNat (port.toList.drop (group.toList.length + 1))

theorem numberAfter_indexed (group : String) (i : Nat) :
    numberAfter group (indexed group i) = i := by
  have hlist : (indexed group i).toList = group.toList ++ '_' :: i.repr.toList := by
    simp only [indexed, String.toList_append, List.append_assoc]
    rfl
  rw [numberAfter, hlist, List.drop_append, List.drop_eq_nil_of_le (Nat.le_succ _)]
  simp [-Nat.toList_repr]

instance (size : Nat) (port : String) : Decidable (IsBeyond size port) :=
  decidable_of_iff (∃ group ∈ countedGroups,
      size ≤ numberAfter group port ∧ port = indexed group (numberAfter group port)) <| by
    constructor
    · rintro ⟨group, hgroup, hsize, hport⟩
      exact ⟨group, hgroup, _, hsize, hport⟩
    · rintro ⟨group, hgroup, i, hsize, rfl⟩
      exact ⟨group, hgroup, by rwa [numberAfter_indexed], by rw [numberAfter_indexed]⟩

theorem not_isBeyond {port : String}
    (h : ∀ group ∈ countedGroups, ¬ (group ++ "_").toList <+: port.toList) (size : Nat) :
    ¬ IsBeyond size port := by
  rintro ⟨group, hgroup, i, -, rfl⟩
  exact h group hgroup (by simp [indexed])

/-! ## Ports by count -/

def fixedPorts (c : Command) : List Port :=
  Port.flowIn :: Port.flowOut :: match c with
    | splitCoins _ => [Port.ioIn coinIn .anyObject]
    | mergeCoins _ expanded =>
      Port.ioIn destinationIn .anyObject ::
        if expanded then [] else [Port.ioIn sourcesIn (.vector .anyObject)]
    | transferObjects _ expanded =>
      Port.ioIn recipientIn .address ::
        if expanded then [] else [Port.ioIn objectsIn (.vector .anyObject)]
    | makeMoveVec elem _ expanded =>
      Port.ioOut vectorOut (.vector elem) ::
        if expanded && !elem.isVector then [] else [Port.ioIn elemsIn (.vector elem)]
    | _ => []

def memberPorts (c : Command) (i : Nat) : List Port :=
  match c with
  | splitCoins _ =>
    [Port.ioIn (indexed amountIn i) (.integer .u64), Port.ioOut (indexed coinOut i) .anyObject]
  | mergeCoins _ expanded => if expanded then [Port.ioIn (indexed sourceIn i) .anyObject] else []
  | transferObjects _ expanded =>
    if expanded then [Port.ioIn (indexed objectIn i) .anyObject] else []
  | makeMoveVec elem _ expanded =>
    if expanded && !elem.isVector then [Port.ioIn (indexed elemIn i) elem] else []
  | _ => []

variable {c : Command} {n : Nat} {p : Port}

theorem mem_numbered_replicate {port : String → DataType → Port} {type : DataType} :
    p ∈ numbered port group (List.replicate n type) ↔ ∃ i < n, p = port (indexed group i) type := by
  simp only [numbered, List.mem_map, Prod.exists, List.mk_mem_zipIdx_iff_getElem?,
    List.getElem?_replicate]
  grind

theorem mem_groupPorts {expanded : Bool} {vector : String} {elem : DataType} :
    p ∈ groupPorts expanded group vector n elem ↔
      (∃ i < n, p ∈ if expanded then [Port.ioIn (indexed group i) elem] else []) ∨
        p ∈ if expanded then [] else [Port.ioIn vector (.vector elem)] := by
  cases expanded <;> simp [groupPorts, mem_numbered_replicate]

theorem mem_ports_iff (h : c.count? = some n) : p ∈ c.ports ↔
    p ∈ c.fixedPorts ∨ ∃ i < c.groupSize n, p ∈ c.memberPorts i := by
  cases c with
  | splitCoins amounts =>
    cases h
    simp only [ports, inputPorts, outputPorts, fixedPorts, memberPorts, groupSize, List.mem_cons,
      List.mem_append, mem_numbered_replicate, List.not_mem_nil]
    grind
  | mergeCoins =>
    cases h
    simp only [ports, inputPorts, outputPorts, isExpanded, fixedPorts, memberPorts, groupSize,
      List.mem_cons, List.append_nil, mem_groupPorts]
    grind
  | transferObjects =>
    cases h
    simp only [ports, inputPorts, outputPorts, isExpanded, fixedPorts, memberPorts, groupSize,
      List.mem_cons, List.append_nil, List.mem_append, List.not_mem_nil, mem_groupPorts]
    grind
  | makeMoveVec =>
    cases h
    simp only [ports, inputPorts, outputPorts, isExpanded, fixedPorts, memberPorts, groupSize,
      List.mem_cons, List.mem_append, List.not_mem_nil, mem_groupPorts]
    grind
  | moveCall call => cases h
  | publish => cases h
  | upgrade => cases h

def fixedIds : List String :=
  [Port.before, Port.after, coinIn, destinationIn, sourcesIn, recipientIn, objectsIn, vectorOut,
    elemsIn]

theorem id_of_mem_fixedPorts : ∀ p ∈ c.fixedPorts, p.id ∈ fixedIds := by
  have hif {b : Bool} {p : Port} (hp : p.id ∈ fixedIds) :
      ∀ q ∈ if b then [] else [p], q.id ∈ fixedIds := by
    cases b
    · exact List.forall_mem_singleton.mpr hp
    · exact List.forall_mem_nil _
  refine List.forall_mem_cons.mpr ⟨by decide, List.forall_mem_cons.mpr ⟨by decide, ?_⟩⟩
  cases c with
  | splitCoins amounts => exact List.forall_mem_singleton.mpr (by decide)
  | mergeCoins =>
    exact List.forall_mem_cons.mpr ⟨by decide, hif (by decide)⟩
  | transferObjects =>
    exact List.forall_mem_cons.mpr ⟨by decide, hif (by decide)⟩
  | makeMoveVec =>
    exact List.forall_mem_cons.mpr ⟨show vectorOut ∈ fixedIds by decide,
      hif (show elemsIn ∈ fixedIds by decide)⟩
  | _ => exact List.forall_mem_nil _

theorem not_isBeyond_of_mem_fixedPorts (h : p ∈ c.fixedPorts) (size : Nat) :
    ¬ IsBeyond size p.id := by
  have hplain : ∀ id ∈ fixedIds, ∀ group ∈ countedGroups,
      ¬ (group ++ "_").toList <+: id.toList := by
    decide
  exact not_isBeyond (hplain _ (id_of_mem_fixedPorts p h)) size

theorem exists_group_of_mem_memberPorts :
    ∀ p ∈ c.memberPorts i, ∃ group ∈ countedGroups, p.id = indexed group i := by
  have hif {b : Bool} {group : String} {type : DataType} (hgroup : group ∈ countedGroups) :
      ∀ p ∈ if b then [Port.ioIn (indexed group i) type] else [],
        ∃ group ∈ countedGroups, p.id = indexed group i := by
    cases b
    · exact List.forall_mem_nil _
    · exact List.forall_mem_singleton.mpr ⟨group, hgroup, rfl⟩
  cases c with
  | splitCoins amounts =>
    exact List.forall_mem_cons.mpr ⟨⟨amountIn, by decide, rfl⟩,
      List.forall_mem_singleton.mpr ⟨coinOut, by decide, rfl⟩⟩
  | mergeCoins => exact hif (by decide)
  | transferObjects => exact hif (by decide)
  | makeMoveVec => exact hif (by decide)
  | _ => exact List.forall_mem_nil _

theorem memberPorts_eq_nil (h : c.isExpanded = false) (i : Nat) : c.memberPorts i = [] := by
  cases c with
  | splitCoins amounts => cases h
  | makeMoveVec =>
    rw [isExpanded] at h
    simp only [memberPorts, h, Bool.false_eq_true, if_false]
  | mergeCoins =>
    cases h
    rfl
  | transferObjects =>
    cases h
    rfl
  | _ => rfl

/-- A command has no ports beyond the size of its groups. -/
theorem not_isBeyond_of_mem_ports (hc : c.count? = some n) (h : p ∈ c.ports) :
    ¬ IsBeyond (c.groupSize n) p.id := by
  rcases (mem_ports_iff hc).mp h with hfixed | ⟨i, hi, hmember⟩
  · exact not_isBeyond_of_mem_fixedPorts hfixed _
  · obtain ⟨group, hgroup, hid⟩ := exists_group_of_mem_memberPorts p hmember
    rw [hid, isBeyond_indexed hgroup]
    exact Nat.not_le_of_lt hi

/-- Nor has it ports beyond any size that is not smaller, or any at all where it takes a vector. -/
theorem not_isBeyond_of_keeps (hc : c.count? = some n) {m : Nat}
    (hkeeps : n ≤ m ∨ c.isExpanded = false) (h : p ∈ c.ports) :
    ¬ IsBeyond (c.groupSize m) p.id := by
  rcases hkeeps with hgrows | hvector
  · have hsize : c.groupSize n ≤ c.groupSize m := by
      cases c <;> simp only [groupSize] <;> omega
    rintro ⟨group, hgroup, i, hi, hid⟩
    exact not_isBeyond_of_mem_ports hc h ⟨group, hgroup, i, hsize.trans hi, hid⟩
  · rcases (mem_ports_iff hc).mp h with hfixed | ⟨i, -, hmember⟩
    · exact not_isBeyond_of_mem_fixedPorts hfixed _
    · rw [memberPorts_eq_nil hvector] at hmember
      cases hmember

theorem count?_resize (hc : c.count? = some n) (m : Nat) : (c.resize m).count? = some m := by
  cases c <;> first | rfl | cases hc

theorem groupSize_resize (c : Command) (m k : Nat) : (c.resize m).groupSize k = c.groupSize k := by
  cases c <;> rfl

/-- A port that is not beyond the new size is kept, with its type. -/
theorem mem_ports_resize (hc : c.count? = some n) {m : Nat} (h : p ∈ c.ports)
    (hsize : ¬ IsBeyond (c.groupSize m) p.id) : p ∈ (c.resize m).ports := by
  rw [mem_ports_iff (count?_resize hc m), groupSize_resize]
  rcases (mem_ports_iff hc).mp h with hfixed | ⟨i, hi, hmember⟩
  · left
    cases c <;> exact hfixed
  · right
    obtain ⟨group, hgroup, hid⟩ := exists_group_of_mem_memberPorts p hmember
    rw [hid, isBeyond_indexed hgroup, Nat.not_le] at hsize
    refine ⟨i, hsize, ?_⟩
    cases c <;> exact hmember

end Command

/-- A port that a resized command had before is gone exactly if it is beyond the new size, and the
same port otherwise. -/
theorem Node.port?_resize {c : Command} {n : Nat} (hc : c.count? = some n) {x port : String}
    {p : Port} (h : (Node.command x c).port? port = some p) (m : Nat) :
    (Node.command x (c.resize m)).port? port =
      if Command.IsBeyond (c.groupSize m) port then none else some p := by
  have hid : p.id = port := by simpa using List.find?_some h
  have hmem : p ∈ c.ports := List.mem_of_find?_eq_some h
  subst hid
  split
  case isTrue hbeyond =>
    refine List.find?_eq_none.mpr fun q hq hqid => ?_
    have hnot := Command.not_isBeyond_of_mem_ports (Command.count?_resize hc m) hq
    rw [Command.groupSize_resize, beq_iff_eq.mp hqid] at hnot
    exact hnot hbeyond
  case isFalse hkept =>
    have hmem' : p ∈ (Node.command x (c.resize m)).ports := Command.mem_ports_resize hc hmem hkept
    exact Node.port?_of_mem hmem'

def Edge.IsBeyond (e : Edge) (node : String) (size : Nat) : Prop :=
  (e.source = node ∧ Command.IsBeyond size e.sourceHandle) ∨
    (e.target = node ∧ Command.IsBeyond size e.targetHandle)

instance (e : Edge) (node : String) (size : Nat) : Decidable (e.IsBeyond node size) :=
  inferInstanceAs (Decidable (_ ∨ _))

namespace Graph

/-! ## Replaced nodes -/

theorem find?_replaceFirst {id : String} {new : Node} (hid : new.id = id) (nodes : List Node)
    (other : String) : (replaceFirst id new nodes).find? (fun n => n.id == other) =
      if other = id then (nodes.find? fun n => n.id == other).map fun _ => new
      else nodes.find? fun n => n.id == other := by
  induction nodes with
  | nil => simp [replaceFirst]
  | cons n rest ih =>
    rw [replaceFirst]
    split
    · grind
    · grind

theorem node?_withNode {g : Graph} {id : String} {new : Node} (hid : new.id = id)
    (other : String) : (g.withNode id new).node? other =
      if other = id then (g.node? other).map fun _ => new else g.node? other :=
  find?_replaceFirst hid g.nodes other

variable {g : Graph} {x : String} {c : Command} {n : Nat}

theorem resolvePort_resize (hx : g.node? x = some (.command x c)) (hc : c.count? = some n) (m : Nat)
    {node port : String} {p : Port} (h : g.resolvePort node port = .ok p) :
    (g.withNode x (.command x (c.resize m))).resolvePort node port =
      if node = x ∧ Command.IsBeyond (c.groupSize m) port then .error (.noPort node port)
      else .ok p := by
  obtain ⟨found, hfound, hp⟩ := resolvePort_eq_ok.mp h
  have hid : (Node.command x (c.resize m)).id = x := rfl
  rw [resolvePort, node?_withNode hid, hfound]
  by_cases hnode : node = x
  · subst hnode
    cases hx.symm.trans hfound
    simp only [if_true, Option.map_some, Node.port?_resize hc hp m, true_and]
    by_cases hbeyond : Command.IsBeyond (c.groupSize m) port
    · simp only [if_pos hbeyond]
    · simp only [if_neg hbeyond]
  · simp only [hp, hnode, false_and, if_false]

/-- **One edge.** It goes with its port, or fits as it did. -/
theorem toOption_refit_resize (hx : g.node? x = some (.command x c)) (hc : c.count? = some n)
    (m : Nat) {e : Edge} (h : g.refit e = .ok e) :
    ((g.withNode x (.command x (c.resize m))).refit e).toOption =
      if e.IsBeyond x (c.groupSize m) then none else some e := by
  obtain ⟨p, q, hp, hq, hkind⟩ := refit_eq_ok.mp h
  have hsource := resolvePort_resize hx hc m hp
  have htarget := resolvePort_resize hx hc m hq
  split
  case isTrue hbeyond =>
    cases hrefit : (g.withNode x (.command x (c.resize m))).refit e with
    | error cause => rfl
    | ok e' =>
      obtain ⟨p', q', hp', hq', -⟩ := refit_eq_ok.mp hrefit
      rcases hbeyond with hbeyond | hbeyond
      · rw [hsource, if_pos hbeyond] at hp'
        cases hp'
      · rw [htarget, if_pos hbeyond] at hq'
        cases hq'
  case isFalse hkept =>
    obtain ⟨hkeptSource, hkeptTarget⟩ := not_or.mp hkept
    rw [if_neg hkeptSource] at hsource
    rw [if_neg hkeptTarget] at htarget
    rw [refit_eq_ok.mpr ⟨p, q, hsource, htarget, hkind⟩]
    rfl

theorem prune_resize (hx : g.node? x = some (.command x c)) (hc : c.count? = some n) (m : Nat)
    (h : ∀ e ∈ g.edges, g.refit e = .ok e) :
    (g.withNode x (.command x (c.resize m))).prune =
      ({ g.withNode x (.command x (c.resize m)) with
          edges := g.edges.filter fun e => ¬ e.IsBeyond x (c.groupSize m) },
        (g.edges.filter fun e => e.IsBeyond x (c.groupSize m)).map Edge.id) := by
  have hrefit : ∀ e ∈ g.edges, ((g.withNode x (.command x (c.resize m))).refit e).toOption =
      Option.guard (fun e => ¬ e.IsBeyond x (c.groupSize m)) e := by
    intro e he
    rw [toOption_refit_resize hx hc m (h e he), Option.guard]
    by_cases hbeyond : e.IsBeyond x (c.groupSize m) <;> simp [hbeyond]
  have hkept : (g.withNode x (.command x (c.resize m))).fittingEdges =
      g.edges.filter fun e => ¬ e.IsBeyond x (c.groupSize m) := by
    rw [← List.filterMap_eq_filter]
    exact List.filterMap_congr hrefit
  have hgone : (g.withNode x (.command x (c.resize m))).staleEdges =
      (g.edges.filter fun e => e.IsBeyond x (c.groupSize m)).map Edge.id := by
    refine congrArg (List.map Edge.id) (List.filter_congr fun e he => ?_)
    rw [toOption_refit_resize hx hc m (h e he)]
    by_cases hbeyond : e.IsBeyond x (c.groupSize m) <;> simp [hbeyond]
  rw [prune, hkept, hgone]

theorem patchCommand_eq (hx : g.node? x = some (.command x c)) (patch : Command → Command) :
    g.patchCommand x patch = .ok (g.withNode x (.command x (patch c))).prune := by
  have hrun : (EditM.patchCommand x patch).run.run g =
      (.ok (g.withNode x (.command x (patch c))).prune.2,
        (g.withNode x (.command x (patch c))).prune.1) := by
    have hget {f : Graph → EditM ConnectError (List String)} :
        (get >>= f).run.run g = (f g).run.run g := rfl
    rw [EditM.patchCommand, hget]
    simp only [hx]
    rfl
  rw [patchCommand, EditM.on, hrun]
  rfl

/-- Where every edge fits, none is attached at a port that its command does not have. -/
theorem not_isBeyond_of_refit (hx : g.node? x = some (.command x c)) (hc : c.count? = some n)
    {m : Nat} (hkeeps : n ≤ m ∨ c.isExpanded = false) {e : Edge} (h : g.refit e = .ok e) :
    ¬ e.IsBeyond x (c.groupSize m) := by
  have hport {port : String} {p : Port} (hp : g.resolvePort x port = .ok p) :
      ¬ Command.IsBeyond (c.groupSize m) port := by
    obtain ⟨found, hfound, hp⟩ := resolvePort_eq_ok.mp hp
    cases hx.symm.trans hfound
    have hid : p.id = port := by simpa using List.find?_some hp
    exact hid ▸ Command.not_isBeyond_of_keeps hc hkeeps (List.mem_of_find?_eq_some hp)
  obtain ⟨p, q, hp, hq, -⟩ := refit_eq_ok.mp h
  rintro (⟨rfl, hbeyond⟩ | ⟨rfl, hbeyond⟩)
  · exact hport hp hbeyond
  · exact hport hq hbeyond

/-- **Resizing a command drops the edges of the ports that vanish, and no others.** A command that
grows, or takes its inputs as a vector, loses none. -/
theorem patchCommand_resize (hids : (g.nodes.map Node.id).Nodup) (hfits : g.prune = (g, []))
    (hx : .command x c ∈ g.nodes) (hc : c.count? = some n) (m : Nat) :
    g.patchCommand x (Command.resize m) = .ok
        ({ g.withNode x (.command x (c.resize m)) with
            edges := g.edges.filter fun e => ¬ e.IsBeyond x (c.groupSize m) },
          (g.edges.filter fun e => e.IsBeyond x (c.groupSize m)).map Edge.id) ∧
      (n ≤ m ∨ c.isExpanded = false →
        g.patchCommand x (Command.resize m) =
          .ok (g.withNode x (.command x (c.resize m)), [])) := by
  have hnode : g.node? x = some (.command x c) := node?_eq_some_of_mem hids hx
  have hedges := prune_eq_self_iff.mp hfits
  have hpatch := patchCommand_eq hnode (Command.resize m)
  rw [prune_resize hnode hc m hedges] at hpatch
  refine ⟨hpatch, fun hkeeps => ?_⟩
  have hnone : ∀ e ∈ g.edges, ¬ e.IsBeyond x (c.groupSize m) := fun e he =>
    not_isBeyond_of_refit hnode hc hkeeps (hedges e he)
  have hkept : (g.edges.filter fun e => ¬ e.IsBeyond x (c.groupSize m)) = g.edges :=
    List.filter_eq_self.mpr fun e he => decide_eq_true (hnone e he)
  have hgone : (g.edges.filter fun e => e.IsBeyond x (c.groupSize m)) = [] :=
    List.filter_eq_nil_iff.mpr fun e he => by simpa using hnone e he
  rw [hpatch, hkept, hgone]
  rfl

/-- A coin is split in three, and one part joined to another. -/
def splitting : Graph where
  nodes := [.var ⟨"n", "n", .integer .u64, none⟩, .command "split" (.splitCoins 3),
    .command "merge" (.mergeCoins 2 true)]
  edges := [.flow "split" "merge", .io "n" "out" "split" "in_amount_0" none,
    .io "n" "out" "split" "in_amount_2" none,
    .io "split" "out_coin_0" "merge" "in_destination" none,
    .io "split" "out_coin_1" "merge" "in_source_1" none]

theorem patchCommand_resize_splitting :
    (splitting.nodes.map Node.id).Nodup ∧ splitting.prune = (splitting, []) ∧
      (∃ g, splitting.patchCommand "split" (Command.resize 0) = .ok (g,
        ["n:out->split:in_amount_2", "split:out_coin_1->merge:in_source_1"])) ∧
      splitting.patchCommand "split" (Command.resize 4) =
        .ok (splitting.withNode "split" (.command "split" (.splitCoins 4)), []) := by
  have hids : (splitting.nodes.map Node.id).Nodup := by decide
  have hfits : splitting.prune = (splitting, []) := by decide
  have hx : .command "split" (.splitCoins 3) ∈ splitting.nodes := by decide
  have hgone : (splitting.edges.filter fun e => e.IsBeyond "split" 1).map Edge.id =
      ["n:out->split:in_amount_2", "split:out_coin_1->merge:in_source_1"] := by decide
  have hsize : (Command.splitCoins 3).groupSize 0 = 1 := rfl
  have hempty := (patchCommand_resize hids hfits hx rfl 0).1
  rw [hsize, hgone] at hempty
  exact ⟨hids, hfits, ⟨_, hempty⟩, (patchCommand_resize hids hfits hx rfl 4).2 (.inl (by decide))⟩

end Graph

end TxGraph
