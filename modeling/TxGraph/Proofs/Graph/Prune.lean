import TxGraph.Proofs.Graph.WellFormed

/-!
# Pruned graphs

Pruning and the report of issues look at an edge in their own ways: pruning refits it, the report
names what is wrong with it. They agree. An edge is kept exactly if nothing is reported of it but
what pruning does not mind, a repeated id, or mends, an outdated narrowing. What is left of a graph
fits, so pruning it again changes nothing.
-/

namespace TxGraph

/-- The issue does not keep an edge from fitting its ports. -/
def IssueCause.isMinor : IssueCause → Bool
  | duplicateEdge => true
  | wrongCast => true
  | _ => false

/-- The edge of which the issue is that it does not fit. -/
def Issue.misfit? (i : Issue) : Option String :=
  match i.target with
  | .edge id => if i.cause.isMinor then none else some id
  | _ => none

namespace Graph

variable {g : Graph} {e : Edge}

/-- Nothing is wrong with the edge but what is minor. -/
def tolerates (g : Graph) (e : Edge) : Bool :=
  (g.edgeIssue? e).all IssueCause.isMinor

def portAt? (g : Graph) (place : String × String) : Option Port :=
  (g.node? place.1).bind fun n => n.port? place.2

/-- The edge, narrowing as the types of its two ports say. -/
def recast (g : Graph) (e : Edge) : Edge :=
  match e.kind, g.portAt? e.tail, g.portAt? e.head with
  | .io _, some p, some q =>
    { e with kind := .io (p.typeOrUnknown.castInto? q.typeOrUnknown) }
  | _, _, _ => e

/-! ## One edge -/

theorem portAt?_eq_some {node port : String} {p : Port} (h : g.resolvePort node port = .ok p) :
    g.portAt? (node, port) = some p := by
  obtain ⟨n, hn, hp⟩ := resolvePort_eq_ok.mp h
  rw [portAt?, hn, Option.bind_some, hp]

/-- An edge that lacks a port has more than a minor issue. -/
theorem isMinor_of_edgePorts {cause : IssueCause} (h : g.edgePorts e = .error cause) :
    cause.isMinor = false := by
  unfold edgePorts at h
  repeat' split at h
  all_goals cases h
  all_goals rfl

/-- Between two ports, what is wrong with an edge is minor exactly if the edge can be refitted. -/
theorem portIssue?_isMinor_iff {p q : Port} :
    (portIssue? e p q).all IssueCause.isMinor = true ↔
      (e.kind = .flow ∧ Port.checkRoles .flow p q = .ok ()) ∨
        ∃ old cast, e.kind = .io old ∧ Port.checkIo p q = .ok cast := by
  unfold portIssue?
  cases hkind : e.kind with
  | flow =>
    rw [checkRoles_eq_ok]
    split_ifs with hrole hdirection <;> simp [IssueCause.isMinor] <;> tauto
  | io old =>
    cases hcheck : Port.checkIo p q with
    | error cause => simp [IssueCause.isMinor]
    | ok expected =>
      dsimp only
      split_ifs <;> simp [IssueCause.isMinor]

theorem tolerates_iff : g.tolerates e = true ↔
    ∃ p q, g.resolvePort e.source e.sourceHandle = .ok p ∧
      g.resolvePort e.target e.targetHandle = .ok q ∧
      ((e.kind = .flow ∧ Port.checkRoles .flow p q = .ok ()) ∨
        ∃ old cast, e.kind = .io old ∧ Port.checkIo p q = .ok cast) := by
  unfold tolerates edgeIssue?
  cases hports : g.edgePorts e with
  | error cause =>
    simp only [Option.all_some, isMinor_of_edgePorts hports, Bool.false_eq_true, false_iff]
    rintro ⟨p, q, hp, hq, -⟩
    rw [edgePorts_eq_ok hp hq] at hports
    cases hports
  | ok ports =>
    obtain ⟨p, q⟩ := ports
    obtain ⟨hp, hq⟩ := edgePorts_eq_ok_iff.mp hports
    dsimp only
    rw [portIssue?_isMinor_iff]
    simp [hp, hq]

/-- **One edge.** It fits exactly if nothing but what is minor is reported of it, and is then
narrowed as its ports say. -/
theorem refit_eq_ok_iff {e' : Edge} :
    g.refit e = .ok e' ↔ g.tolerates e = true ∧ e' = g.recast e := by
  rw [refit_eq_ok, tolerates_iff]
  constructor
  · rintro ⟨p, q, hp, hq, ⟨hkind, hroles, rfl⟩ | ⟨old, cast, hkind, hcheck, rfl⟩⟩
    · exact ⟨⟨p, q, hp, hq, .inl ⟨hkind, hroles⟩⟩, by rw [recast, hkind]⟩
    · obtain ⟨-, -, rfl⟩ := checkIo_eq_ok_iff.mp hcheck
      refine ⟨⟨p, q, hp, hq, .inr ⟨old, _, hkind, hcheck⟩⟩, ?_⟩
      rw [recast, hkind, Edge.tail, Edge.head, portAt?_eq_some hp, portAt?_eq_some hq]
  · rintro ⟨⟨p, q, hp, hq, ⟨hkind, hroles⟩ | ⟨old, cast, hkind, hcheck⟩⟩, rfl⟩
    · exact ⟨p, q, hp, hq, .inl ⟨hkind, hroles, by rw [recast, hkind]⟩⟩
    · refine ⟨p, q, hp, hq, .inr ⟨old, cast, hkind, hcheck, ?_⟩⟩
      obtain ⟨-, -, rfl⟩ := checkIo_eq_ok_iff.mp hcheck
      rw [recast, hkind, Edge.tail, Edge.head, portAt?_eq_some hp, portAt?_eq_some hq]

theorem toOption_refit (g : Graph) (e : Edge) :
    (g.refit e).toOption = (Option.guard g.tolerates e).map g.recast := by
  cases hrefit : g.refit e with
  | ok e' =>
    obtain ⟨htolerates, rfl⟩ := refit_eq_ok_iff.mp hrefit
    rw [Option.guard, if_pos htolerates]
    rfl
  | error cause =>
    have hnot : g.tolerates e = false := by
      by_contra htolerates
      rw [refit_eq_ok_iff.mpr ⟨Bool.not_eq_false _ ▸ htolerates, rfl⟩] at hrefit
      cases hrefit
    rw [Option.guard, hnot]
    rfl

/-! ## All edges -/

theorem fittingEdges_eq (g : Graph) :
    g.fittingEdges = (g.edges.filter g.tolerates).map g.recast := by
  rw [← List.filterMap_eq_filter, List.map_filterMap]
  exact List.filterMap_congr fun e _ => g.toOption_refit e

theorem staleEdges_eq (g : Graph) :
    g.staleEdges = (g.edges.filter fun e => !g.tolerates e).map Edge.id := by
  have hnone (e : Edge) : (g.refit e).toOption.isNone = !g.tolerates e := by
    rw [toOption_refit, Option.isNone_map]
    cases htolerates : g.tolerates e <;> simp [Option.guard, htolerates]
  simp only [staleEdges, hnone]

/-- Pruning leaves a graph as it is exactly if every edge fits as it is. -/
theorem prune_eq_self_iff : g.prune = (g, []) ↔ ∀ e ∈ g.edges, g.refit e = .ok e := by
  have hsplit : g.prune = (g, []) ↔
      (g.edges.filter g.tolerates).map g.recast = g.edges ∧
        ∀ e ∈ g.edges, g.tolerates e = true := by
    cases g
    simp [prune, fittingEdges_eq, staleEdges_eq]
  rw [hsplit]
  constructor
  · rintro ⟨hedges, htolerates⟩ e he
    rw [List.filter_eq_self.mpr htolerates] at hedges
    have hrecast : ∀ e ∈ g.edges, g.recast e = id e :=
      List.map_inj_left.mp (hedges.trans (List.map_id _).symm)
    exact refit_eq_ok_iff.mpr ⟨htolerates e he, (hrecast e he).symm⟩
  · intro h
    have htolerates : ∀ e ∈ g.edges, g.tolerates e = true := fun e he =>
      (refit_eq_ok_iff.mp (h e he)).1
    refine ⟨?_, htolerates⟩
    rw [List.filter_eq_self.mpr htolerates]
    calc g.edges.map g.recast = g.edges.map id :=
          List.map_inj_left.mpr fun e he => (refit_eq_ok_iff.mp (h e he)).2.symm
      _ = g.edges := List.map_id _

theorem fits_of_mem_prune (he : e ∈ g.prune.1.edges) : g.prune.1.refit e = .ok e := by
  obtain ⟨e₀, -, hrefit⟩ := mem_fittingEdges.mp he
  exact refit_refit hrefit

/-! ## The report -/

/-- What is reported of an edge, whatever ids came before it. -/
theorem tolerates_iff_edgeIssues (seen : List String) : g.tolerates e = true ↔
    ∀ i ∈ edgeIssues g seen [e], i.cause.isMinor = true := by
  have hduplicate : ∀ i ∈ (if e.id ∈ seen then [(⟨.edge e.id, .duplicateEdge⟩ : Issue)] else []),
      i.cause.isMinor = true := by
    split
    · exact List.forall_mem_singleton.mpr rfl
    · exact List.forall_mem_nil _
  rw [tolerates, edgeIssues, edgeIssues, List.append_nil, List.forall_mem_append,
    and_iff_right hduplicate]
  cases g.edgeIssue? e <;> simp

theorem filterMap_misfit?_edgeIssues (seen : List String) (edges : List Edge) :
    (edgeIssues g seen edges).filterMap Issue.misfit? =
      (edges.filter fun e => !g.tolerates e).map Edge.id := by
  induction edges generalizing seen with
  | nil => rfl
  | cons e edges ih =>
    have hduplicate :
        (if e.id ∈ seen then [(⟨.edge e.id, .duplicateEdge⟩ : Issue)] else []).filterMap
          Issue.misfit? = [] := by
      split <;> rfl
    rw [edgeIssues, List.filterMap_append, List.filterMap_append, ih, hduplicate, List.nil_append,
      List.filter_cons, tolerates]
    cases g.edgeIssue? e with
    | none => rfl
    | some cause => cases hminor : cause.isMinor <;> simp [Issue.misfit?, hminor]

/-- Issues of edges are found when edges are looked at one by one, and nowhere else. -/
theorem issues_eq_append (g : Graph) : ∃ before after,
    g.issues = before ++ edgeIssues g [] g.edges ++ after ∧
      (∀ i ∈ before, ∀ id, i.target ≠ .edge id) ∧ ∀ i ∈ after, ∀ id, i.target ≠ .edge id := by
  refine ⟨_, _, rfl, ?_, ?_⟩
  · have hmarker {marker : Marker} {count : Nat} :
        ∀ i ∈ markerIssues marker count, ∀ id, i.target ≠ .edge id := by
      intro i hi id
      rw [target_of_mem_markerIssues hi]
      exact IssueTarget.noConfusion
    refine List.forall_mem_append.mpr ⟨List.forall_mem_append.mpr ⟨?_, hmarker⟩, hmarker⟩
    rintro _ hi id
    obtain ⟨_, -, rfl⟩ := List.mem_map.mp hi
    exact IssueTarget.noConfusion
  · rintro _ hi id
    obtain ⟨_, -, rfl⟩ := List.mem_map.mp hi
    exact IssueTarget.noConfusion

theorem filterMap_misfit?_issues (g : Graph) :
    g.issues.filterMap Issue.misfit? = (g.edges.filter fun e => !g.tolerates e).map Edge.id := by
  obtain ⟨before, after, hissues, hbefore, hafter⟩ := g.issues_eq_append
  have hnone {others : List Issue} (h : ∀ i ∈ others, ∀ id, i.target ≠ .edge id) :
      others.filterMap Issue.misfit? = [] := by
    refine List.filterMap_eq_nil_iff.mpr fun i hi => ?_
    unfold Issue.misfit?
    split
    case h_1 id htarget => exact absurd htarget (h i hi id)
    case h_2 => rfl
  rw [hissues, List.filterMap_append, List.filterMap_append, hnone hbefore, hnone hafter,
    filterMap_misfit?_edgeIssues, List.nil_append, List.append_nil]

/-- Where every edge fits, edges can have repeated ids only. -/
theorem cause_of_mem_edgeIssues {edges : List Edge} (h : ∀ e ∈ edges, g.edgeIssue? e = none)
    {seen : List String} : ∀ i ∈ edgeIssues g seen edges, i.cause = .duplicateEdge := by
  induction edges generalizing seen with
  | nil => exact List.forall_mem_nil _
  | cons e edges ih =>
    obtain ⟨hnone, hrest⟩ := List.forall_mem_cons.mp h
    rw [edgeIssues, hnone]
    refine List.forall_mem_append.mpr ⟨?_, ih hrest⟩
    split
    · exact List.forall_mem_singleton.mpr rfl
    · exact List.forall_mem_nil _

/-- **Pruning agrees with the report of issues.** It keeps the nodes, and of the edges those of
which only minor issues are reported, in their order and narrowed as their ports say. It answers the
ids of the others, which are those reported not to fit. Of the edges that are left only repeated ids
are reported, and they are all kept when they are pruned again. -/
theorem prune_agrees (g : Graph) :
    g.prune.1.nodes = g.nodes ∧
      g.prune.1.edges = (g.edges.filter g.tolerates).map g.recast ∧
      g.prune.2 = (g.edges.filter fun e => !g.tolerates e).map Edge.id ∧
      (∀ e seen, g.tolerates e = true ↔ ∀ i ∈ edgeIssues g seen [e], i.cause.isMinor = true) ∧
      g.prune.2 = g.issues.filterMap Issue.misfit? ∧
      (∀ e ∈ g.prune.1.edges, ∃ p q, g.HasPort e.tail p ∧ g.HasPort e.head q ∧ e.kind.Fits p q) ∧
      (∀ i ∈ g.prune.1.issues, ∀ id, i.target = .edge id → i.cause = .duplicateEdge) ∧
      g.prune.1.prune = (g.prune.1, []) := by
  have hnone : ∀ e ∈ g.prune.1.edges, g.prune.1.edgeIssue? e = none := fun e he =>
    edgeIssue?_eq_none (fits_of_mem_prune he)
  refine ⟨rfl, g.fittingEdges_eq, g.staleEdges_eq, fun _ seen => tolerates_iff_edgeIssues seen,
    g.staleEdges_eq.trans g.filterMap_misfit?_issues.symm,
    fun e he => edgeIssue?_eq_none_iff.mp (hnone e he), ?_,
    prune_eq_self_iff.mpr fun _ => fits_of_mem_prune⟩
  obtain ⟨before, after, hissues, hbefore, hafter⟩ := g.prune.1.issues_eq_append
  intro i hi id htarget
  rw [hissues, List.mem_append, List.mem_append] at hi
  rcases hi with (hi | hi) | hi
  · exact absurd htarget (hbefore i hi id)
  · exact cause_of_mem_edgeIssues hnone i hi
  · exact absurd htarget (hafter i hi id)

end Graph

end TxGraph
