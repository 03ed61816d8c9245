import TxGraph.Proofs.Graph.Edit

/-!
# Graphs without issues

What is known of a graph of which no issue is reported: ids are unique, and every edge fits the
ports that it joins. A graph of which the structure is right has issues with types only.
-/

namespace TxGraph.Graph

variable {g : Graph}
variable {e : Edge}

theorem nodup_of_repeated {seen ids : List String} (h : repeated seen ids = []) :
    ids.Nodup ∧ seen.Disjoint ids := by
  induction ids generalizing seen with
  | nil => exact ⟨List.nodup_nil, List.disjoint_nil_right _⟩
  | cons id rest ih =>
    rw [repeated] at h
    split at h
    · cases h
    case isFalse hnot =>
      obtain ⟨hnodup, hdisjoint⟩ := ih h
      obtain ⟨hid, hseen⟩ := List.disjoint_cons_left.mp hdisjoint
      exact ⟨List.nodup_cons.mpr ⟨hid, hnodup⟩, List.disjoint_cons_right.mpr ⟨hnot, hseen⟩⟩

theorem edgePorts_eq_ok_iff {p q : Port} : g.edgePorts e = .ok (p, q) ↔
    g.resolvePort e.source e.sourceHandle = .ok p ∧
      g.resolvePort e.target e.targetHandle = .ok q := by
  refine ⟨fun h => ?_, fun ⟨hp, hq⟩ => edgePorts_eq_ok hp hq⟩
  unfold edgePorts at h
  cases hs : g.node? e.source with
  | none => simp [hs] at h
  | some m =>
    cases ht : g.node? e.target with
    | none => simp [hs, ht] at h
    | some n =>
      cases hp : m.port? e.sourceHandle with
      | none => simp [hs, ht, hp] at h
      | some p' =>
        cases hq : n.port? e.targetHandle with
        | none => simp [hs, ht, hp, hq] at h
        | some q' =>
          simp only [hs, ht, hp, hq] at h
          cases h
          exact ⟨resolvePort_eq_ok.mpr ⟨m, hs, hp⟩, resolvePort_eq_ok.mpr ⟨n, ht, hq⟩⟩

theorem refit_of_edgeIssue? (h : g.edgeIssue? e = none) : g.refit e = .ok e := by
  unfold edgeIssue? at h
  split at h
  · cases h
  case h_2 p q hports =>
    obtain ⟨hp, hq⟩ := edgePorts_eq_ok_iff.mp hports
    refine refit_eq_ok.mpr ⟨p, q, hp, hq, ?_⟩
    unfold portIssue? at h
    split at h
    case h_1 hkind =>
      simp only [ite_eq_iff, reduceCtorEq, and_false, false_or, not_or, not_not, and_true] at h
      exact .inl ⟨hkind, checkRoles_eq_ok.mpr h, rfl⟩
    case h_2 cast hkind =>
      cases hcheck : Port.checkIo p q with
      | error cause => simp [hcheck] at h
      | ok expected =>
        simp only [hcheck, ite_eq_left_iff, reduceCtorEq, imp_false, not_not] at h
        subst h
        exact .inr ⟨expected, expected, hkind, rfl, by rw [← hkind]⟩

theorem edgeIssue?_of_edgeIssues {edges : List Edge} {seen : List String}
    (h : edgeIssues g seen edges = []) : ∀ e ∈ edges, g.edgeIssue? e = none := by
  induction edges generalizing seen with
  | nil => nofun
  | cons e rest ih =>
    simp only [edgeIssues, List.append_eq_nil_iff, Option.toList_eq_nil_iff,
      Option.map_eq_none_iff] at h
    exact List.forall_mem_cons.mpr ⟨h.1.2, ih h.2⟩

theorem nodup_of_issues (h : g.issues = []) : (g.nodes.map Node.id).Nodup := by
  simp only [issues, List.append_eq_nil_iff, nodeIssues, List.map_eq_nil_iff] at h
  exact (nodup_of_repeated h.1.1.1.1).1

theorem refit_of_issues (h : g.issues = []) (he : e ∈ g.edges) : g.refit e = .ok e := by
  simp only [issues, List.append_eq_nil_iff] at h
  exact refit_of_edgeIssue? (edgeIssue?_of_edgeIssues h.1.2 e he)

/-! ## Structure -/

/-- The edge joins an output to an input of its own role, and a number that flows along it is narrowed
as the types of the ports say. -/
def Attaches (g : Graph) (e : Edge) : Prop :=
  ∃ p q, g.Joins e p q ∧
    ∀ cast, e.kind = .io cast → cast = p.typeOrUnknown.castInto? q.typeOrUnknown

/-- The graph is right, except that values may not be of the types that they should be. -/
structure Structured (g : Graph) : Prop where
  nodeIds : (g.nodes.map Node.id).Nodup
  edgeIds : (g.edges.map Edge.id).Nodup
  start : g.nodes.countP Node.isStart = 1
  finish : g.nodes.countP Node.isFinish = 1
  attaches : ∀ e ∈ g.edges, g.Attaches e
  inputs : ((g.edges.filter Edge.isIo).map fun e => (e.target, e.targetHandle)).Nodup
  handles : ((g.edges.filter Edge.isFlow).flatMap fun e =>
    [(e.source, e.sourceHandle), (e.target, e.targetHandle)]).Nodup

def Mismatch (g : Graph) (i : Issue) : Prop :=
  ∃ e ∈ g.edges, e.isIo = true ∧ ∃ p q, g.Joins e p q ∧
    p.typeOrUnknown.flowsInto q.typeOrUnknown = false ∧
    i = ⟨.edge e.id, .misfit (.types p.typeOrUnknown q.typeOrUnknown)⟩

theorem Attaches.joins (h : g.Attaches e) : ∃ p q, g.Joins e p q := by
  obtain ⟨p, q, hjoins, -⟩ := h
  exact ⟨p, q, hjoins⟩

theorem edgeIssue?_eq {p q : Port} (h : g.Joins e p q)
    (hcast : ∀ cast, e.kind = .io cast → cast = p.typeOrUnknown.castInto? q.typeOrUnknown) :
    g.edgeIssue? e = if e.isIo ∧ p.typeOrUnknown.flowsInto q.typeOrUnknown = false then
      some (.misfit (.types p.typeOrUnknown q.typeOrUnknown)) else none := by
  obtain ⟨hp, hq, hroles⟩ := h
  rw [edgeIssue?, edgePorts_eq_ok hp hq]
  unfold portIssue?
  cases hkind : e.kind with
  | flow =>
    rw [Edge.role, hkind] at hroles
    obtain ⟨⟨h₁, h₂⟩, h₃, h₄⟩ := checkRoles_eq_ok.mp hroles
    simp [Edge.isIo, Edge.isFlow, hkind, h₁, h₂, h₃, h₄]
  | io cast =>
    rw [Edge.role, hkind] at hroles
    cases hflows : p.typeOrUnknown.flowsInto q.typeOrUnknown with
    | true =>
      have hcheck : Port.checkIo p q = .ok cast := by
        simp [Port.checkIo, hroles, hflows, hcast cast hkind]
      simp [hcheck]
    | false =>
      have hcheck : Port.checkIo p q = .error (.types p.typeOrUnknown q.typeOrUnknown) := by
        simp only [Port.checkIo, hroles, hflows]
        rfl
      simp [hcheck, Edge.isIo, Edge.isFlow, hkind]

namespace Drawn

variable (h : g.Drawn) (hstart : g.nodes.countP Node.isStart = 1)
  (hfinish : g.nodes.countP Node.isFinish = 1) (hattaches : ∀ e ∈ g.edges, g.Attaches e)

include h hstart hfinish hattaches

theorem structured : g.Structured where
  nodeIds := h.distinct
  edgeIds := h.nodup_edgeIds fun e he => (hattaches e he).joins
  start := hstart
  finish := hfinish
  attaches := hattaches
  inputs := h.nodup_inputs
  handles := h.nodup_handles

/-- **All issues of a graph whose structure is right are about types.** -/
theorem mem_issues {i : Issue} : i ∈ g.issues ↔ g.Mismatch i := by
  rw [h.issues_eq fun e he => (hattaches e he).joins, hstart, hfinish]
  simp only [markerIssues, List.nil_append, List.mem_filterMap, Option.map_eq_some_iff]
  constructor
  · rintro ⟨e, he, cause, hcause, rfl⟩
    obtain ⟨p, q, hjoins, hcast⟩ := hattaches e he
    rw [edgeIssue?_eq hjoins hcast] at hcause
    split at hcause
    case isTrue hmisfit =>
      cases hcause
      exact ⟨e, he, hmisfit.1, p, q, hjoins, hmisfit.2, rfl⟩
    case isFalse => cases hcause
  · rintro ⟨e, he, hio, p, q, hjoins, hflows, rfl⟩
    obtain ⟨p', q', hjoins', hcast⟩ := hattaches e he
    obtain rfl : p' = p := Except.ok.inj (hjoins'.source.symm.trans hjoins.source)
    obtain rfl : q' = q := Except.ok.inj (hjoins'.target.symm.trans hjoins.target)
    exact ⟨e, he, _, by rw [edgeIssue?_eq hjoins hcast, if_pos ⟨hio, hflows⟩], rfl⟩

end Drawn

end TxGraph.Graph
