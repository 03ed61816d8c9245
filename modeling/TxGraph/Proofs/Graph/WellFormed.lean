import TxGraph.Proofs.Graph.Issue

/-!
# Well-formed graphs

What it means for a graph to be well formed, said without a checker, and that no issue is reported
exactly of the graphs that are. The ports of an edge that is not attached are not counted among
crowded ones; that makes no difference, since such an edge is an issue by itself. Nor does it that
an edge with both ends at one port crowds it alone: no port is both an output and an input.
-/

namespace TxGraph

/-- The edge joins an output to an input of its own role. A value that flows along it is of a type
that the input takes, and is narrowed as the two types say. -/
def EdgeKind.Fits (kind : EdgeKind) (source target : Port) : Prop :=
  source.direction = .output ∧ target.direction = .input ∧
    match kind with
    | .flow => source.role = .flow ∧ target.role = .flow
    | .io cast => source.role = .io ∧ target.role = .io ∧
      source.typeOrUnknown.flowsInto target.typeOrUnknown = true ∧
      cast = source.typeOrUnknown.castInto? target.typeOrUnknown

namespace Edge

def tail (e : Edge) : String × String :=
  (e.source, e.sourceHandle)

def head (e : Edge) : String × String :=
  (e.target, e.targetHandle)

end Edge

namespace Graph

variable {g : Graph} {edges : List Edge}

def HasPort (g : Graph) (place : String × String) (p : Port) : Prop :=
  ∃ n, g.node? place.1 = some n ∧ n.port? place.2 = some p

structure WellFormed (g : Graph) : Prop where
  nodeIds : (g.nodes.map Node.id).Nodup
  start : g.nodes.countP Node.isStart = 1
  finish : g.nodes.countP Node.isFinish = 1
  edgeIds : (g.edges.map Edge.id).Nodup
  ports : ∀ e ∈ g.edges, ∃ p q, g.HasPort e.tail p ∧ g.HasPort e.head q ∧ e.kind.Fits p q
  /-- No two io edges lead to one port. -/
  inputs : g.edges.Pairwise fun e f => e.isIo = true → f.isIo = true → e.head ≠ f.head
  /-- No two flow edges have an end in common. -/
  handles : g.edges.Pairwise fun e f => e.isFlow = true → f.isFlow = true →
    [e.tail, e.head].Disjoint [f.tail, f.head]

/-! ## Ids and markers -/

theorem repeated_eq_nil_iff {ids : List String} : repeated [] ids = [] ↔ ids.Nodup :=
  ⟨fun h => (nodup_of_repeated h).1, fun h => repeated_eq_nil h (List.disjoint_nil_left _)⟩

theorem markerIssues_eq_nil_iff {marker : Marker} {count : Nat} :
    markerIssues marker count = [] ↔ count = 1 := by
  unfold markerIssues
  split <;> simp_all

/-! ## Edges -/

theorem checkIo_eq_ok_iff {p q : Port} {cast : Option Width} : Port.checkIo p q = .ok cast ↔
    Port.checkRoles .io p q = .ok () ∧ p.typeOrUnknown.flowsInto q.typeOrUnknown = true ∧
      cast = p.typeOrUnknown.castInto? q.typeOrUnknown := by
  unfold Port.checkIo
  rw [bind_eq_ok]
  constructor
  · rintro ⟨⟨⟩, hroles, h⟩
    refine ⟨hroles, ?_⟩
    dsimp only at h
    split at h
    case isTrue hflows => exact ⟨hflows, (Except.ok.inj h).symm⟩
    case isFalse => cases h
  · rintro ⟨hroles, hflows, rfl⟩
    exact ⟨(), hroles, if_pos hflows⟩

/-- Nothing is wrong with an edge between two ports exactly if it fits them. -/
theorem portIssue?_eq_none_iff {e : Edge} {p q : Port} :
    portIssue? e p q = none ↔ e.kind.Fits p q := by
  unfold portIssue? EdgeKind.Fits
  cases e.kind with
  | flow =>
    simp only [ite_eq_iff, reduceCtorEq, and_false, false_or, not_or, not_not, and_true]
    tauto
  | io cast =>
    have hok : Port.checkIo p q = .ok cast ↔ p.direction = .output ∧ q.direction = .input ∧
        p.role = .io ∧ q.role = .io ∧ p.typeOrUnknown.flowsInto q.typeOrUnknown = true ∧
        cast = p.typeOrUnknown.castInto? q.typeOrUnknown := by
      rw [checkIo_eq_ok_iff, checkRoles_eq_ok]
      tauto
    refine Iff.trans ?_ hok
    cases Port.checkIo p q <;> simp

theorem edgeIssue?_eq_none_iff {e : Edge} : g.edgeIssue? e = none ↔
    ∃ p q, g.HasPort e.tail p ∧ g.HasPort e.head q ∧ e.kind.Fits p q := by
  have hports {p q : Port} : g.edgePorts e = .ok (p, q) ↔
      g.HasPort e.tail p ∧ g.HasPort e.head q := by
    rw [edgePorts_eq_ok_iff, resolvePort_eq_ok, resolvePort_eq_ok]
    rfl
  unfold edgeIssue?
  constructor
  · intro h
    split at h
    · cases h
    case h_2 p q hfound =>
      obtain ⟨hp, hq⟩ := hports.mp hfound
      exact ⟨p, q, hp, hq, portIssue?_eq_none_iff.mp h⟩
  · rintro ⟨p, q, hp, hq, hfits⟩
    rw [hports.mpr ⟨hp, hq⟩]
    exact portIssue?_eq_none_iff.mpr hfits

theorem edgeIssues_eq_nil_iff {seen : List String} :
    edgeIssues g seen edges = [] ↔ (edges.map Edge.id).Nodup ∧ seen.Disjoint (edges.map Edge.id) ∧
      ∀ e ∈ edges, g.edgeIssue? e = none := by
  induction edges generalizing seen with
  | nil => simp [edgeIssues]
  | cons e edges ih =>
    simp only [edgeIssues, List.append_eq_nil_iff, ih, ite_eq_right_iff, reduceCtorEq, imp_false,
      Option.toList_eq_nil_iff, Option.map_eq_none_iff, List.map_cons, List.nodup_cons,
      List.disjoint_cons_left, List.disjoint_cons_right, List.forall_mem_cons]
    tauto

/-! ## Crowded ports -/

theorem crowds_eq_nil_iff {isFlow : Bool} {ports : List (String × String)} :
    crowds isFlow ports = [] ↔ ports.Nodup := by
  refine ⟨fun h => List.nodup_iff_count_le_one.mpr fun port => ?_, crowds_eq_nil⟩
  by_cases hport : port ∈ ports
  · have hcrowd : (⟨port.1, port.2, ports.count port, isFlow⟩ : Crowd) ∈
        ports.eraseDups.map fun p => ⟨p.1, p.2, ports.count p, isFlow⟩ :=
      List.mem_map.mpr ⟨port, List.mem_eraseDups.mpr hport, rfl⟩
    have := List.filter_eq_nil_iff.mp h _ hcrowd
    simpa using this
  · rw [List.count_eq_zero_of_not_mem hport]
    exact Nat.zero_le 1

theorem crowdIssues_eq_nil_iff : g.crowdIssues = [] ↔
    ((g.attachedEdges.filter Edge.isIo).map Edge.head).Nodup ∧
      ((g.attachedEdges.filter Edge.isFlow).flatMap fun e => [e.tail, e.head]).Nodup := by
  have hsort (crowds : List Crowd) : crowds.mergeSort Crowd.before = [] ↔ crowds = [] := by
    rw [← List.length_eq_zero_iff, List.length_mergeSort, List.length_eq_zero_iff]
  simp only [crowdIssues, List.map_eq_nil_iff, hsort, List.append_eq_nil_iff, crowds_eq_nil_iff]
  rfl

theorem attachedEdges_eq (h : ∀ e ∈ g.edges, g.edgeIssue? e = none) :
    g.attachedEdges = g.edges := by
  refine List.filter_eq_self.mpr fun e he => ?_
  have hnone := h e he
  unfold edgeIssue? at hnone
  split at hnone
  · cases hnone
  case h_2 hports =>
    rw [hports]
    rfl

/-- No edge leads from a port to itself, for it would be an output and an input. -/
theorem tail_ne_head (h : ∀ e ∈ g.edges, g.edgeIssue? e = none) :
    ∀ e ∈ g.edges, e.isFlow = true → e.tail ≠ e.head := by
  intro e he _ heq
  obtain ⟨p, q, ⟨m, hm, hp⟩, ⟨n, hn, hq⟩, houtput, hinput, -⟩ := edgeIssue?_eq_none_iff.mp (h e he)
  rw [heq, hn] at hm
  cases hm
  rw [heq, hq] at hp
  cases hp
  rw [houtput] at hinput
  cases hinput

theorem nodup_heads_iff :
    ((edges.filter Edge.isIo).map Edge.head).Nodup ↔
      edges.Pairwise fun e f => e.isIo = true → f.isIo = true → e.head ≠ f.head := by
  rw [List.Nodup, List.pairwise_map, List.pairwise_filter]

theorem nodup_ends_iff (h : ∀ e ∈ edges, e.isFlow = true → e.tail ≠ e.head) :
    ((edges.filter Edge.isFlow).flatMap fun e => [e.tail, e.head]).Nodup ↔
      edges.Pairwise fun e f => e.isFlow = true → f.isFlow = true →
        [e.tail, e.head].Disjoint [f.tail, f.head] := by
  have hends : ∀ e ∈ edges.filter Edge.isFlow, [e.tail, e.head].Nodup := by
    intro e he
    obtain ⟨hmem, hflow⟩ := List.mem_filter.mp he
    simpa using h e hmem hflow
  rw [List.nodup_flatMap, and_iff_right hends, List.pairwise_filter]

/-- **No issue is reported of a graph exactly if it is well formed.** -/
theorem issues_eq_nil_iff_wellFormed (g : Graph) : g.issues = [] ↔ g.WellFormed := by
  have hedges : (∀ e ∈ g.edges, g.edgeIssue? e = none) ↔
      ∀ e ∈ g.edges, ∃ p q, g.HasPort e.tail p ∧ g.HasPort e.head q ∧ e.kind.Fits p q :=
    forall₂_congr fun _ _ => edgeIssue?_eq_none_iff
  simp only [issues, nodeIssues, List.append_eq_nil_iff, List.map_eq_nil_iff, repeated_eq_nil_iff,
    markerIssues_eq_nil_iff, edgeIssues_eq_nil_iff, crowdIssues_eq_nil_iff]
  constructor
  · rintro ⟨⟨⟨⟨hnodes, hstart⟩, hfinish⟩, hids, -, hnone⟩, hinputs, hhandles⟩
    rw [attachedEdges_eq hnone] at hinputs hhandles
    exact ⟨hnodes, hstart, hfinish, hids, hedges.mp hnone, nodup_heads_iff.mp hinputs,
      (nodup_ends_iff (tail_ne_head hnone)).mp hhandles⟩
  · intro h
    have hnone := hedges.mpr h.ports
    rw [attachedEdges_eq hnone, nodup_heads_iff, nodup_ends_iff (tail_ne_head hnone)]
    exact ⟨⟨⟨⟨h.nodeIds, h.start⟩, h.finish⟩, h.edgeIds, List.disjoint_nil_left _, hnone⟩, h.inputs,
      h.handles⟩

end Graph

end TxGraph
