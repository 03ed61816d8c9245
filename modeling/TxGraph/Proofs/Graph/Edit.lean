import Mathlib.Data.List.Basic
import TxGraph.Graph.Issue
import TxGraph.Proofs.Command
import TxGraph.Proofs.Outcome

/-!
# Edited graphs

A graph that is made from nothing by edits is well wired: its edges fit their ports, have ids of
their own and share no input and no flow port. So all that can be wrong with it is the number of its
markers. An edit that replaces a node may leave edges that do not fit, and pruning drops them. The
rest of the invariant is kept by the edit itself, so it is stated apart (`Drawn`). An edit makes all
its checks before its first change, so one that fails leaves the graph as it was.
-/

namespace TxGraph

variable {a b a' b' : List Char} {e : Edge}

/-! ## Ids of edges -/

/-- The id has no arrow in it, so the first arrow in the id of an edge ends its source. -/
def Arrowless (id : String) : Prop :=
  ¬ "->".toList <:+: id.toList

instance (id : String) : Decidable (Arrowless id) :=
  inferInstanceAs (Decidable (¬ _ <:+: _))

/-- The characters of a port's id do not divide the id of an edge. -/
def Undivided (port : String) : Prop :=
  ':' ∉ port.toList ∧ '-' ∉ port.toList

instance (port : String) : Decidable (Undivided port) :=
  inferInstanceAs (Decidable (_ ∧ _))

theorem undivided_indexed {group : String} (h : Undivided group) (i : Nat) :
    Undivided (Command.indexed group i) := by
  have hdigit : ∀ c ∈ (toString i).toList, c.isDigit = true := fun _ => Text.isDigit_of_mem_repr
  obtain ⟨hcolon, hdash⟩ := h
  simp only [Undivided, Command.indexed, String.toList_append, List.mem_append, not_or]
  exact ⟨⟨⟨hcolon, by decide⟩, fun hc => absurd (hdigit _ hc) (by decide)⟩,
    ⟨hdash, by decide⟩, fun hc => absurd (hdigit _ hc) (by decide)⟩

theorem undivided_of_mem_ports {n : Node} : ∀ p ∈ n.ports, Undivided p.id := by
  cases n with
  | start id => simp [Node.ports, Port.flowOut, Undivided, Port.after]
  | finish id => simp [Node.ports, Port.flowIn, Undivided, Port.before]
  | var v => simp [Node.ports, Port.ioOut, Undivided, Port.variableOut]
  | command id c =>
    have hin : ∀ group ∈ Command.inputGroups, Undivided group := by decide
    have hout : ∀ group ∈ Command.outputGroups, Undivided group := by decide
    refine List.forall_mem_cons.mpr ⟨by decide, List.forall_mem_cons.mpr
      ⟨by decide, List.forall_mem_append.mpr ⟨fun q hq => ?_, fun q hq => ?_⟩⟩⟩
    · exact (Command.among_of_mem_inputPorts q hq).2.of (by decide)
        fun group hgroup => undivided_indexed (hin group hgroup)
    · exact (Command.among_of_mem_outputPorts q hq).2.of (by decide)
        fun group hgroup => undivided_indexed (hout group hgroup)

/-- An arrow in the source part of an edge's id lies in the source's own id. -/
theorem arrow_infix_source {source port : List Char} (hport : '-' ∉ port)
    (h : ['-', '>'] <:+: source ++ ':' :: port) : ['-', '>'] <:+: source := by
  induction source with
  | nil =>
    have hmem : '-' ∈ ':' :: port := h.subset (by simp)
    simp [hport] at hmem
  | cons c source ih =>
    rcases List.infix_cons_iff.mp h with hfront | hrest
    · cases source with
      | nil => simp at hfront
      | cons d source =>
        have hfront : ['-', '>'] <+: c :: d :: (source ++ ':' :: port) := hfront
        rw [List.cons_prefix_cons, List.cons_prefix_cons] at hfront
        obtain ⟨rfl, rfl, -⟩ := hfront
        exact (List.prefix_append ['-', '>'] source).isInfix
    · exact List.infix_cons (ih hrest)

/-- A text is cut in one way at its first arrow. -/
theorem append_arrow_inj (ha : ¬ ['-', '>'] <:+: a) (ha' : ¬ ['-', '>'] <:+: a')
    (h : a ++ '-' :: '>' :: b = a' ++ '-' :: '>' :: b') : a = a' ∧ b = b' := by
  have key {a b c b' : List Char} (hc : ¬ ['-', '>'] <:+: a ++ c)
      (h : '-' :: '>' :: b = c ++ '-' :: '>' :: b') : c = [] ∧ b = b' := by
    match c, h with
    | [], h => exact ⟨rfl, by simpa using h⟩
    | [_], h => simp at h
    | x :: y :: c, h =>
      simp only [List.cons_append, List.cons.injEq] at h
      obtain ⟨rfl, rfl, -⟩ := h
      exact absurd ⟨a, c, by simp⟩ hc
  rcases List.append_eq_append_iff.mp h with ⟨c, rfl, hb⟩ | ⟨c, rfl, hb⟩
  · obtain ⟨rfl, rfl⟩ := key ha' hb
    exact ⟨(List.append_nil _).symm, rfl⟩
  · obtain ⟨rfl, rfl⟩ := key ha hb
    exact ⟨List.append_nil _, rfl⟩

/-- A text is cut in one way at the last of its marks. -/
theorem append_mark_inj {mark : Char} (hb : mark ∉ b) (hb' : mark ∉ b')
    (h : a ++ mark :: b = a' ++ mark :: b') : a = a' ∧ b = b' := by
  have key {b c b' : List Char} (hb : mark ∉ b) (h : mark :: b = c ++ mark :: b') :
      c = [] ∧ b = b' := by
    cases c with
    | nil => exact ⟨rfl, by simpa using h⟩
    | cons x c =>
      obtain ⟨-, rfl⟩ := List.cons.inj h
      exact absurd (by simp) hb
  rcases List.append_eq_append_iff.mp h with ⟨c, rfl, hc⟩ | ⟨c, rfl, hc⟩
  · obtain ⟨rfl, rfl⟩ := key hb hc
    exact ⟨(List.append_nil _).symm, rfl⟩
  · obtain ⟨rfl, rfl⟩ := key hb' hc
    exact ⟨List.append_nil _, rfl⟩

theorem Edge.idOf_inj {source sourceHandle target targetHandle source' sourceHandle' target'
    targetHandle' : String} (hs : Arrowless source) (hs' : Arrowless source')
    (hsh : Undivided sourceHandle) (hsh' : Undivided sourceHandle') (hth : Undivided targetHandle)
    (hth' : Undivided targetHandle')
    (h : Edge.idOf source sourceHandle target targetHandle =
      Edge.idOf source' sourceHandle' target' targetHandle') :
    source = source' ∧ sourceHandle = sourceHandle' ∧ target = target' ∧
      targetHandle = targetHandle' := by
  have hlist := congrArg String.toList h
  simp only [Edge.idOf, String.toList_append, List.append_assoc] at hlist
  have hcut : (source.toList ++ ':' :: sourceHandle.toList) ++
      '-' :: '>' :: (target.toList ++ ':' :: targetHandle.toList) =
        (source'.toList ++ ':' :: sourceHandle'.toList) ++
          '-' :: '>' :: (target'.toList ++ ':' :: targetHandle'.toList) := by
    simpa using hlist
  obtain ⟨hleft, hright⟩ := append_arrow_inj (fun h => hs (arrow_infix_source hsh.2 h))
    (fun h => hs' (arrow_infix_source hsh'.2 h)) hcut
  obtain ⟨h₁, h₂⟩ := append_mark_inj hsh.1 hsh'.1 hleft
  obtain ⟨h₃, h₄⟩ := append_mark_inj hth.1 hth'.1 hright
  exact ⟨String.toList_inj.mp h₁, String.toList_inj.mp h₂, String.toList_inj.mp h₃,
    String.toList_inj.mp h₄⟩

/-! ## Edges that fit -/

def Edge.role (e : Edge) : Role :=
  match e.kind with
  | .flow => .flow
  | .io _ => .io

theorem Edge.isFlow_iff : e.isFlow = true ↔ e.role = .flow := by
  unfold isFlow role
  cases e.kind <;> simp

theorem Edge.isIo_iff : e.isIo = true ↔ e.role = .io := by
  unfold isIo isFlow role
  cases e.kind <;> simp

namespace Graph

variable {g : Graph} {p q : Port} {e e' : Edge}

theorem node?_eq_some {id : String} {n : Node} (h : g.node? id = some n) :
    n ∈ g.nodes ∧ n.id = id :=
  ⟨List.mem_of_find?_eq_some h, by simpa using List.find?_some h⟩

theorem resolvePort_eq_ok {node port : String} :
    g.resolvePort node port = .ok p ↔ ∃ n, g.node? node = some n ∧ n.port? port = some p := by
  unfold resolvePort
  cases g.node? node with
  | none => simp
  | some n => cases hp : n.port? port <;> simp [hp]

theorem checkRoles_eq_ok {role : Role} :
    Port.checkRoles role p q = .ok () ↔
      (p.role = role ∧ q.role = role) ∧ p.direction = .output ∧ q.direction = .input := by
  unfold Port.checkRoles
  split_ifs with hrole hdirection <;> simp <;> tauto

theorem checkRoles_of_checkIo {cast : Option Width} (h : Port.checkIo p q = .ok cast) :
    Port.checkRoles .io p q = .ok () := by
  obtain ⟨_, hroles, -⟩ := bind_eq_ok.mp h
  exact hroles

theorem refit_eq_ok :
    g.refit e = .ok e' ↔ ∃ p q, g.resolvePort e.source e.sourceHandle = .ok p ∧
      g.resolvePort e.target e.targetHandle = .ok q ∧
      ((e.kind = .flow ∧ Port.checkRoles .flow p q = .ok () ∧ e' = e) ∨
        ∃ old cast, e.kind = .io old ∧ Port.checkIo p q = .ok cast ∧
          e' = { e with kind := .io cast }) := by
  have hend {a b : Edge} : (pure a : Except ConnectError Edge) = .ok b ↔ b = a :=
    ⟨fun h => (Except.ok.inj h).symm, fun h => congrArg Except.ok h.symm⟩
  unfold refit
  cases e.kind <;> simp [bind_eq_ok, hend, Unique.exists_iff, -bind_pure_comp]

structure Joins (g : Graph) (e : Edge) (p q : Port) : Prop where
  source : g.resolvePort e.source e.sourceHandle = .ok p
  target : g.resolvePort e.target e.targetHandle = .ok q
  roles : Port.checkRoles e.role p q = .ok ()

theorem joins_of_refit (h : g.refit e = .ok e') : ∃ p q, g.Joins e p q := by
  obtain ⟨p, q, hp, hq, hkind⟩ := refit_eq_ok.mp h
  refine ⟨p, q, hp, hq, ?_⟩
  obtain ⟨hkind, hroles, -⟩ | ⟨old, cast, hkind, hcast, -⟩ := hkind
  · simpa only [Edge.role, hkind] using hroles
  · simpa only [Edge.role, hkind] using checkRoles_of_checkIo hcast

theorem refit_congr {g' : Graph} (hs : g'.node? e.source = g.node? e.source)
    (ht : g'.node? e.target = g.node? e.target) : g'.refit e = g.refit e := by
  simp only [refit, resolvePort, hs, ht]

theorem refit_refit (h : g.refit e = .ok e') : g.refit e' = .ok e' := by
  obtain ⟨p, q, hp, hq, ⟨hkind, hroles, rfl⟩ | ⟨old, cast, hkind, hcast, rfl⟩⟩ := refit_eq_ok.mp h
  · exact h
  · exact refit_eq_ok.mpr ⟨p, q, hp, hq, .inr ⟨cast, cast, rfl, hcast, rfl⟩⟩

end Graph

namespace Edge

variable {e e' : Edge} {g : Graph}

/-- The edge is one that connecting two ports makes. -/
inductive Formed : Edge → Prop
  | io (source sourceHandle target targetHandle : String) (cast : Option Width) :
    Formed (.io source sourceHandle target targetHandle cast)
  | flow (source target : String) : Formed (.flow source target)

theorem Formed.id_eq (h : e.Formed) :
    e.id = idOf e.source e.sourceHandle e.target e.targetHandle := by
  cases h <;> rfl

theorem Formed.handles (h : e.Formed) (hflow : e.isFlow = true) :
    e.sourceHandle = Port.after ∧ e.targetHandle = Port.before := by
  cases h with
  | io => cases hflow
  | flow => exact ⟨rfl, rfl⟩

/-- The edges share no port that holds one edge only. -/
def Apart (e f : Edge) : Prop :=
  (e.isIo = true → f.isIo = true → (e.target, e.targetHandle) ≠ (f.target, f.targetHandle)) ∧
    (e.isFlow = true → f.isFlow = true → e.source ≠ f.source ∧ e.target ≠ f.target)

theorem recast (h : g.refit e = .ok e') :
    e' = e ∨ ∃ old cast, e.kind = .io old ∧ e' = { e with kind := .io cast } := by
  obtain ⟨_, _, -, -, ⟨-, -, rfl⟩ | ⟨old, cast, hkind, -, rfl⟩⟩ := Graph.refit_eq_ok.mp h
  · exact .inl rfl
  · exact .inr ⟨old, cast, hkind, rfl⟩

theorem Formed.refit (hf : e.Formed) (h : g.refit e = .ok e') : e'.Formed := by
  obtain rfl | ⟨old, cast, hkind, rfl⟩ := recast h
  · exact hf
  · cases hf with
    | io => exact .io _ _ _ _ _
    | flow => cases hkind

theorem Apart.refit {f f' : Edge} (ha : e.Apart f) (he : g.refit e = .ok e')
    (hf : g.refit f = .ok f') : e'.Apart f' := by
  have key {a b : Edge} (h : g.refit a = .ok b) : b.isFlow = a.isFlow ∧ b.source = a.source ∧
      b.target = a.target ∧ b.targetHandle = a.targetHandle := by
    obtain rfl | ⟨old, cast, hkind, rfl⟩ := recast h
    · exact ⟨rfl, rfl, rfl, rfl⟩
    · exact ⟨by simp [isFlow, hkind], rfl, rfl, rfl⟩
  obtain ⟨h₁, h₂, h₃, h₄⟩ := key he
  obtain ⟨k₁, k₂, k₃, k₄⟩ := key hf
  simpa only [Apart, isIo, h₁, h₂, h₃, h₄, k₁, k₂, k₃, k₄] using ha

end Edge

namespace Graph

variable {g : Graph} {e : Edge} {id : String}
variable {edges : List Edge} {nodes : List Node} {source target : String} {new : Node}
  {seen : List String}

/-! ## The invariant -/

/-- What each edit keeps by itself. -/
structure Drawn (g : Graph) : Prop where
  distinct : (g.nodes.map Node.id).Nodup
  arrowless : ∀ id ∈ g.nodes.map Node.id, Arrowless id
  formed : ∀ e ∈ g.edges, e.Formed
  apart : g.edges.Pairwise Edge.Apart

/-- What a graph keeps while it is edited. -/
structure WellWired (g : Graph) : Prop extends g.Drawn where
  fits : ∀ e ∈ g.edges, g.refit e = .ok e

theorem wellWired_empty : empty.WellWired :=
  ⟨⟨List.nodup_nil, List.forall_mem_nil _, List.forall_mem_nil _, .nil⟩, List.forall_mem_nil _⟩

theorem WellWired.sublist (h : g.WellWired) (hsub : edges.Sublist g.edges) :
    WellWired { g with edges } where
  distinct := h.distinct
  arrowless := h.arrowless
  formed e he := h.formed e (hsub.subset he)
  apart := h.apart.sublist hsub
  fits e he := h.fits e (hsub.subset he)

theorem WellWired.push (h : g.WellWired) (hformed : e.Formed) (hfits : g.refit e = .ok e)
    (hapart : ∀ f ∈ g.edges, f.Apart e) :
    WellWired { g with edges := g.edges ++ [e] } where
  distinct := h.distinct
  arrowless := h.arrowless
  formed := List.forall_mem_append.mpr ⟨h.formed, List.forall_mem_singleton.mpr hformed⟩
  apart := List.pairwise_append.mpr
    ⟨h.apart, List.pairwise_singleton _ _, fun f hf _ he => List.mem_singleton.mp he ▸ hapart f hf⟩
  fits := List.forall_mem_append.mpr ⟨h.fits, List.forall_mem_singleton.mpr hfits⟩

theorem Drawn.renode (h : g.Drawn) (hids : nodes.map Node.id = g.nodes.map Node.id) :
    Drawn { g with nodes } where
  distinct := by simpa only [hids] using h.distinct
  arrowless := by simpa only [hids] using h.arrowless
  formed := h.formed
  apart := h.apart

theorem mem_fittingEdges : e ∈ g.fittingEdges ↔ ∃ e₀ ∈ g.edges, g.refit e₀ = .ok e := by
  have htoOption {x : Except ConnectError Edge} : x.toOption = some e ↔ x = .ok e := by
    cases x <;> simp [Except.toOption]
  simp [fittingEdges, htoOption]

/-- Pruning restores the whole invariant: an edge that is left fits as pruning has refitted it. -/
theorem Drawn.prune (h : g.Drawn) : g.prune.1.WellWired where
  distinct := h.distinct
  arrowless := h.arrowless
  formed e he := by
    obtain ⟨e₀, he₀, hrefit⟩ := mem_fittingEdges.mp he
    exact (h.formed e₀ he₀).refit hrefit
  apart := by
    have htoOption {x : Except ConnectError Edge} {e : Edge} (hx : x.toOption = some e) :
        x = .ok e := by
      cases x <;> simp_all [Except.toOption]
    exact h.apart.filterMap _ fun _ _ ha _ he _ hf => ha.refit (htoOption he) (htoOption hf)
  fits e he := by
    obtain ⟨e₀, -, hrefit⟩ := mem_fittingEdges.mp he
    exact refit_refit hrefit

/-! ## One edit -/

theorem WellWired.addNode {n : Node} (h : g.WellWired) (hfresh : g.node? n.id = none)
    (harrow : Arrowless n.id) : (g.addNode n).WellWired where
  distinct := by
    have hnot : n.id ∉ g.nodes.map Node.id := by simpa [node?] using hfresh
    simpa [Graph.addNode, List.nodup_append, List.nodup_singleton] using
      ⟨h.distinct, fun m hm hid => hnot (hid ▸ List.mem_map_of_mem hm)⟩
  arrowless := by
    rw [Graph.addNode, List.map_append]
    exact List.forall_mem_append.mpr ⟨h.arrowless, List.forall_mem_singleton.mpr harrow⟩
  formed := h.formed
  apart := h.apart
  fits e he := by
    have hold {id : String} (hsome : (g.node? id).isSome) :
        (g.addNode n).node? id = g.node? id := by
      obtain ⟨m, hm⟩ := Option.isSome_iff_exists.mp hsome
      rw [hm]
      simpa [node?, Graph.addNode, List.find?_append] using .inl hm
    obtain ⟨p, q, hp, hq, -⟩ := refit_eq_ok.mp (h.fits e he)
    obtain ⟨a, ha, -⟩ := resolvePort_eq_ok.mp hp
    obtain ⟨b, hb, -⟩ := resolvePort_eq_ok.mp hq
    rw [refit_congr (hold (by simp [ha])) (hold (by simp [hb]))]
    exact h.fits e he

theorem find?_eraseP_id {other : String} (h : other ≠ id) :
    (nodes.eraseP fun n => n.id == id).find? (fun n => n.id == other) =
      nodes.find? fun n => n.id == other := by
  induction nodes with
  | nil => rfl
  | cons n rest ih =>
    by_cases hn : n.id = id
    · simp [hn, Ne.symm h]
    · simp [hn, List.find?_cons, ih]

theorem WellWired.removeNode (h : g.WellWired) (id : String) : (g.removeNode id).1.WellWired := by
  unfold Graph.removeNode
  cases hn : g.node? id with
  | none => exact h
  | some n =>
    have hsub : (g.nodes.eraseP fun n => n.id == id).Sublist g.nodes := List.eraseP_sublist
    exact {
      distinct := h.distinct.sublist (hsub.map _)
      arrowless := fun id hid => h.arrowless id ((hsub.map _).subset hid)
      formed := fun e he => h.formed e (List.mem_of_mem_filter he)
      apart := h.apart.sublist List.filter_sublist
      fits := fun e he => by
        obtain ⟨hmem, htouch⟩ := List.mem_filter.mp he
        simp only [Edge.touches, Bool.not_eq_true', Bool.or_eq_false_iff, beq_eq_false_iff_ne]
          at htouch
        rw [← h.fits e hmem]
        exact refit_congr (find?_eraseP_id htouch.1) (find?_eraseP_id htouch.2) }

theorem WellWired.removeEdge (h : g.WellWired) (id : String) : (g.removeEdge id).1.WellWired := by
  unfold Graph.removeEdge
  split
  · exact h
  · exact h.sublist List.eraseP_sublist

theorem WellWired.addIo {sourceHandle targetHandle : String} (h : g.WellWired)
    (he : g.proposeIo source sourceHandle target targetHandle = .ok e) :
    WellWired
      { g with edges := (g.edges.filter fun e => !e.feeds target targetHandle) ++ [e] } := by
  unfold proposeIo at he
  split at he
  · cases he
  obtain ⟨p, hp, he⟩ := bind_eq_ok.mp he
  obtain ⟨q, hq, he⟩ := bind_eq_ok.mp he
  obtain ⟨cast, hcast, he⟩ := bind_eq_ok.mp he
  obtain rfl := Except.ok.inj he
  refine (h.sublist List.filter_sublist).push (.io ..) ?_ ?_
  · exact refit_eq_ok.mpr ⟨p, q, hp, hq, .inr ⟨cast, cast, rfl, hcast, rfl⟩⟩
  · intro f hf
    refine ⟨fun hio _ heq => ?_, fun _ hflow => nomatch hflow⟩
    obtain ⟨ht, hth⟩ := Prod.mk.inj heq
    have hfeeds : f.feeds target targetHandle = false := by simpa using List.of_mem_filter hf
    rw [Edge.feeds, hio, ht, hth] at hfeeds
    simp [Edge.io] at hfeeds

theorem WellWired.addFlow (h : g.WellWired) (he : g.proposeFlow source target = .ok e) :
    WellWired { g with edges := (g.edges.filter fun e =>
      !(e.isFlow && (e.source == source || e.target == target))) ++ [e] } := by
  unfold proposeFlow at he
  split at he
  · cases he
  obtain ⟨p, hp, he⟩ := bind_eq_ok.mp he
  obtain ⟨q, hq, he⟩ := bind_eq_ok.mp he
  obtain ⟨_, hroles, he⟩ := bind_eq_ok.mp he
  obtain rfl := Except.ok.inj he
  refine (h.sublist List.filter_sublist).push (.flow ..) ?_ ?_
  · exact refit_eq_ok.mpr ⟨p, q, hp, hq, .inl ⟨rfl, hroles, rfl⟩⟩
  · intro f hf
    refine ⟨fun _ hio => (nomatch hio), fun hflow _ => ?_⟩
    have hkept := List.of_mem_filter hf
    simpa [hflow, Edge.flow] using hkept

theorem map_id_replaceFirst (h : new.id = id) (nodes : List Node) :
    (replaceFirst id new nodes).map Node.id = nodes.map Node.id := by
  induction nodes with
  | nil => rfl
  | cons n rest ih =>
    unfold replaceFirst
    split
    next hn => simpa [h] using (beq_iff_eq.mp hn).symm
    next => simp [ih]

/-- A node may be replaced by any other of its id, if pruning follows. -/
theorem WellWired.withNode (h : g.WellWired) (hid : new.id = id) :
    (g.withNode id new).prune.1.WellWired :=
  (h.toDrawn.renode (map_id_replaceFirst hid _)).prune

/-! ## Issues -/

theorem repeated_eq_nil {ids : List String} (hnodup : ids.Nodup) (hseen : seen.Disjoint ids) :
    repeated seen ids = [] := by
  induction ids generalizing seen with
  | nil => rfl
  | cons id ids ih =>
    obtain ⟨hid, hnodup⟩ := List.nodup_cons.mp hnodup
    obtain ⟨hnot, hseen⟩ := List.disjoint_cons_right.mp hseen
    rw [repeated, if_neg hnot]
    exact ih hnodup (List.disjoint_cons_left.mpr ⟨hid, hseen⟩)

theorem edgePorts_eq_ok {p q : Port} (hp : g.resolvePort e.source e.sourceHandle = .ok p)
    (hq : g.resolvePort e.target e.targetHandle = .ok q) : g.edgePorts e = .ok (p, q) := by
  obtain ⟨m, hm, hp⟩ := resolvePort_eq_ok.mp hp
  obtain ⟨n, hn, hq⟩ := resolvePort_eq_ok.mp hq
  simp only [edgePorts, hm, hn, hp, hq]
  rfl

theorem edgeIssue?_eq_none (h : g.refit e = .ok e) : g.edgeIssue? e = none := by
  obtain ⟨p, q, hp, hq, hkind⟩ := refit_eq_ok.mp h
  rw [edgeIssue?, edgePorts_eq_ok hp hq]
  obtain ⟨hkind, hroles, -⟩ | ⟨old, cast, hkind, hcast, heq⟩ := hkind
  · obtain ⟨⟨h₁, h₂⟩, h₃, h₄⟩ := checkRoles_eq_ok.mp hroles
    simp [portIssue?, hkind, h₁, h₂, h₃, h₄]
  · have hkind : e.kind = .io cast := congrArg Edge.kind heq
    simp [portIssue?, hkind, hcast]

/-- Where ids are unique, all issues of edges are about single edges. -/
theorem edgeIssues_eq (hnodup : (edges.map Edge.id).Nodup)
    (hseen : seen.Disjoint (edges.map Edge.id)) :
    edgeIssues g seen edges =
      edges.filterMap fun e => (g.edgeIssue? e).map fun cause => ⟨.edge e.id, cause⟩ := by
  induction edges generalizing seen with
  | nil => rfl
  | cons e edges ih =>
    obtain ⟨hid, hnodup⟩ := List.nodup_cons.mp hnodup
    obtain ⟨hnot, hseen⟩ := List.disjoint_cons_right.mp hseen
    have hrest := ih hnodup (List.disjoint_cons_left.mpr ⟨hid, hseen⟩)
    rw [edgeIssues, if_neg hnot, hrest]
    cases hcause : g.edgeIssue? e <;> simp [hcause]

theorem crowds_eq_nil {isFlow : Bool} {ports : List (String × String)} (h : ports.Nodup) :
    crowds isFlow ports = [] := by
  rw [crowds, List.filter_eq_nil_iff]
  intro c hc
  obtain ⟨p, -, rfl⟩ := List.mem_map.mp hc
  simpa using List.nodup_iff_count_le_one.mp h p

theorem target_of_mem_markerIssues {marker : Marker} {count : Nat} {i : Issue}
    (h : i ∈ markerIssues marker count) : i.target = .graph := by
  unfold markerIssues at h
  split at h <;> simp_all

namespace Drawn

variable {g : Graph} (h : g.Drawn)

include h

/-- Two edges of the same id join the same two ports, so they are of one kind and share the input, or
both flow ports. -/
theorem nodup_edgeIds (hjoins : ∀ e ∈ g.edges, ∃ p q, g.Joins e p q) :
    (g.edges.map Edge.id).Nodup := by
  have hport {node port : String} {p : Port} (hp : g.resolvePort node port = .ok p) :
      Arrowless node ∧ Undivided port := by
    obtain ⟨n, hn, hp⟩ := resolvePort_eq_ok.mp hp
    obtain ⟨hmem, hid⟩ := node?_eq_some hn
    have hport : p.id = port := by simpa using List.find?_some hp
    exact ⟨h.arrowless _ (hid ▸ List.mem_map_of_mem hmem),
      hport ▸ undivided_of_mem_ports p (List.mem_of_find?_eq_some hp)⟩
  refine List.pairwise_map.mpr (h.apart.imp_of_mem fun {e f} he hf hapart hid => ?_)
  rw [(h.formed e he).id_eq, (h.formed f hf).id_eq] at hid
  obtain ⟨p, q, hp, hq, hroles⟩ := hjoins e he
  obtain ⟨p', q', hp', hq', hroles'⟩ := hjoins f hf
  obtain ⟨hs, hsh, ht, hth⟩ := Edge.idOf_inj (hport hp).1 (hport hp').1 (hport hp).2 (hport hp').2
    (hport hq).2 (hport hq').2 hid
  rw [ht, hth, hq'] at hq
  cases hq
  have hrole : e.role = f.role :=
    (checkRoles_eq_ok.mp hroles).1.2.symm.trans (checkRoles_eq_ok.mp hroles').1.2
  cases hkind : f.role with
  | flow =>
    rw [hkind] at hrole
    exact (hapart.2 (Edge.isFlow_iff.mpr hrole) (Edge.isFlow_iff.mpr hkind)).1 hs
  | io =>
    rw [hkind] at hrole
    exact hapart.1 (Edge.isIo_iff.mpr hrole) (Edge.isIo_iff.mpr hkind) (by rw [ht, hth])

theorem nodup_inputs :
    ((g.edges.filter Edge.isIo).map fun e => (e.target, e.targetHandle)).Nodup := by
  refine List.pairwise_map.mpr ((h.apart.sublist List.filter_sublist).imp_of_mem ?_)
  intro e f he hf hapart
  exact hapart.1 (List.of_mem_filter he) (List.of_mem_filter hf)

theorem nodup_handles :
    ((g.edges.filter Edge.isFlow).flatMap fun e =>
      [(e.source, e.sourceHandle), (e.target, e.targetHandle)]).Nodup := by
  have hne : Port.after ≠ Port.before := by decide
  refine List.nodup_flatMap.mpr ⟨fun e he => ?_,
    (h.apart.sublist List.filter_sublist).imp_of_mem ?_⟩
  · obtain ⟨hmem, hflow⟩ := List.mem_filter.mp he
    obtain ⟨hs, ht⟩ := (h.formed e hmem).handles hflow
    simp [hs, ht, hne]
  · intro e f he hf hapart
    obtain ⟨hmem, hflow⟩ := List.mem_filter.mp he
    obtain ⟨hmem', hflow'⟩ := List.mem_filter.mp hf
    obtain ⟨hs, ht⟩ := (h.formed e hmem).handles hflow
    obtain ⟨hs', ht'⟩ := (h.formed f hmem').handles hflow'
    obtain ⟨hsource, htarget⟩ := hapart.2 hflow hflow'
    simp [Function.onFun, hs, ht, hs', ht', hne, hne.symm, hsource.symm, htarget.symm]

theorem crowdIssues_eq_nil (hjoins : ∀ e ∈ g.edges, ∃ p q, g.Joins e p q) :
    g.crowdIssues = [] := by
  have hattached : g.attachedEdges = g.edges := by
    refine List.filter_eq_self.mpr fun e he => ?_
    obtain ⟨p, q, hp, hq, -⟩ := hjoins e he
    rw [edgePorts_eq_ok hp hq]
    rfl
  simp only [crowdIssues, hattached, crowds_eq_nil h.nodup_inputs, crowds_eq_nil h.nodup_handles,
    List.append_nil, List.mergeSort_nil, List.map_nil]

/-- A graph whose edges join ports of their role has issues with its markers and with single edges
only. -/
theorem issues_eq (hjoins : ∀ e ∈ g.edges, ∃ p q, g.Joins e p q) :
    g.issues = markerIssues .start (g.nodes.countP Node.isStart) ++
      markerIssues .finish (g.nodes.countP Node.isFinish) ++
      g.edges.filterMap fun e => (g.edgeIssue? e).map fun cause => ⟨.edge e.id, cause⟩ := by
  rw [issues, nodeIssues, repeated_eq_nil h.distinct (List.disjoint_nil_left _), List.map_nil,
    edgeIssues_eq (h.nodup_edgeIds hjoins) (List.disjoint_nil_left _), h.crowdIssues_eq_nil hjoins,
    List.nil_append, List.append_nil]

end Drawn

namespace WellWired

variable {g : Graph}

theorem joins (h : g.WellWired) : ∀ e ∈ g.edges, ∃ p q, g.Joins e p q :=
  fun e he => joins_of_refit (h.fits e he)

theorem nodup_edgeIds (h : g.WellWired) : (g.edges.map Edge.id).Nodup :=
  h.toDrawn.nodup_edgeIds h.joins

/-- All that can be wrong with a graph that is well wired is the number of its markers. -/
theorem target_of_mem_issues (h : g.WellWired) {i : Issue} (hi : i ∈ g.issues) :
    i.target = .graph := by
  have hedges : (g.edges.filterMap fun e => (g.edgeIssue? e).map fun cause =>
      (⟨.edge e.id, cause⟩ : Issue)) = [] := by
    refine List.filterMap_eq_nil_iff.mpr fun e he => ?_
    rw [edgeIssue?_eq_none (h.fits e he), Option.map_none]
  rw [h.toDrawn.issues_eq h.joins, hedges, List.append_nil] at hi
  exact (List.mem_append.mp hi).elim target_of_mem_markerIssues target_of_mem_markerIssues

end WellWired

end Graph

/-! ## Edits as data -/

/-- The edit as one among others: its answer is dropped, and its errors are some of theirs. -/
def EditM.within {ε δ α : Type} (f : ε → δ) (x : EditM ε α) : EditM δ Unit :=
  ExceptT.mk ((fun answer => (answer.mapError f).map fun _ => ()) <$> x.run)

/-- An edit, with what it is given. Types of objects are looked up by any function that may fail. -/
inductive Edit (ε : Type)
  | addNode (n : Node)
  | removeNode (id : String)
  | removeEdge (id : String)
  | connectIo (source sourceHandle target targetHandle : String)
  | connectFlow (source target : String)
  | patchCommand (id : String) (patch : Command → Command)
  | setVariableType (id : String) (type : DataType)
  | prune
  | refine (id : String) (typeOf : String → Except ε String)

namespace Edit

variable {ε : Type}

def perform : Edit ε → EditM (ConnectError ⊕ ε) Unit
  | addNode n => modify fun g => g.addNode n
  | removeNode id => modify fun g => (g.removeNode id).1
  | removeEdge id => modify fun g => (g.removeEdge id).1
  | connectIo source sourceHandle target targetHandle =>
    (EditM.connectIo source sourceHandle target targetHandle).within .inl
  | connectFlow source target => (EditM.connectFlow source target).within .inl
  | patchCommand id patch => (EditM.patchCommand id patch).within .inl
  | setVariableType id type => (EditM.setVariableType id type).within .inl
  | prune => discard EditM.prune
  | refine id typeOf => (EditM.refineObjectType id typeOf).within .inr

/-- A node is added under an id of its own, which has no arrow in it. -/
def Allowed (g : Graph) : Edit ε → Prop
  | addNode n => g.node? n.id = none ∧ Arrowless n.id
  | _ => True

instance (g : Graph) : (e : Edit ε) → Decidable (e.Allowed g)
  | addNode _ => inferInstanceAs (Decidable (_ ∧ _))
  | removeNode _ | removeEdge _ | connectIo _ _ _ _ | connectFlow _ _ | patchCommand _ _
  | setVariableType _ _ | prune | refine _ _ => .isTrue trivial

end Edit

/-! ## How edits end -/

namespace EditM

variable {ε δ α β : Type} {g : Graph} {post : Graph → Prop}

/-- From the graph, the edit succeeds with a graph that has the property, or it fails and leaves the
graph as it was. -/
def Yields (g : Graph) (x : EditM ε α) (post : Graph → Prop) : Prop :=
  (∃ a g', x.run.run g = (.ok a, g') ∧ post g') ∨ ∃ e, x.run.run g = (.error e, g)

namespace Yields

variable {x : EditM ε α}

theorem ok {a : α} {g' : Graph} (hrun : x.run.run g = (.ok a, g')) (h : post g') :
    Yields g x post :=
  .inl ⟨a, g', hrun, h⟩

theorem throw (e : ε) : Yields g (throw e : EditM ε α) post :=
  .inr ⟨e, rfl⟩

theorem get_bind {f : Graph → EditM ε α} (h : Yields g (f g) post) : Yields g (get >>= f) post := h

/-- A check comes before every change. -/
theorem lift_bind {x : Except ε β} {f : β → EditM ε α}
    (h : ∀ b, x = .ok b → Yields g (f b) post) : Yields g (liftM x >>= f) post := by
  cases x with
  | ok b => exact h b rfl
  | error e => exact .inr ⟨e, rfl⟩

theorem within (h : Yields g x post) (f : ε → δ) : Yields g (x.within f) post := by
  have hwithin : (x.within f).run.run g =
      (((x.run.run g).1.mapError f).map fun _ => (), (x.run.run g).2) := rfl
  rcases h with ⟨a, g', hrun, h⟩ | ⟨e, hrun⟩ <;> rw [hrun] at hwithin
  · exact .inl ⟨(), g', hwithin, h⟩
  · exact .inr ⟨f e, hwithin⟩

theorem mono {post' : Graph → Prop} (h : Yields g x post) (hp : ∀ g', post g' → post' g') :
    Yields g x post' :=
  h.imp_left fun ⟨a, g', hrun, hg'⟩ => ⟨a, g', hrun, hp g' hg'⟩

end Yields

theorem connect_yields {propose : Graph → Except ConnectError Edge} {replaced : Edge → Bool}
    (h : ∀ e, propose g = .ok e →
      post { g with edges := (g.edges.filter fun e => !replaced e) ++ [e] }) :
    Yields g (connect propose replaced) post :=
  .get_bind (.lift_bind fun e he => .ok rfl (h e he))

theorem patchCommand_yields (id : String) (patch : Command → Command) :
    Yields g (patchCommand id patch) fun g' => g.WellWired → g'.WellWired := by
  refine .get_bind ?_
  split
  · exact .throw _
  next c _ => exact .ok rfl fun h => h.withNode rfl
  · exact .throw _

theorem setVariableType_yields (id : String) (type : DataType) :
    Yields g (setVariableType id type) fun g' => g.WellWired → g'.WellWired := by
  refine .get_bind ?_
  split
  · exact .throw _
  next v hv => exact .ok rfl fun h => h.withNode (Graph.node?_eq_some hv).2
  · exact .throw _

theorem refineObjectType_yields (id : String) (typeOf : String → Except ε String) :
    Yields g (refineObjectType id typeOf) fun g' => g.WellWired → g'.WellWired := by
  refine .get_bind ?_
  split
  next v hv =>
    split
    · exact .ok rfl fun h => h
    · exact .lift_bind fun tag _ => .ok rfl fun h => h.withNode (Graph.node?_eq_some hv).2
  · exact .ok rfl fun h => h

end EditM

/-- **One edit.** It keeps graphs well wired, or fails before it changes anything. -/
theorem Edit.perform_yields {ε : Type} (e : Edit ε) (g : Graph) :
    e.perform.Yields g fun g' => g.WellWired → e.Allowed g → g'.WellWired := by
  cases e with
  | addNode n => exact .ok rfl fun h hallowed => h.addNode hallowed.1 hallowed.2
  | removeNode id => exact .ok rfl fun h _ => h.removeNode id
  | removeEdge id => exact .ok rfl fun h _ => h.removeEdge id
  | connectIo =>
    exact (EditM.connect_yields fun _ he h _ => h.addIo he).within _
  | connectFlow =>
    exact (EditM.connect_yields fun _ he h _ => h.addFlow he).within _
  | patchCommand id patch =>
    exact ((EditM.patchCommand_yields id patch).within _).mono fun _ hg h _ => hg h
  | setVariableType id type =>
    exact ((EditM.setVariableType_yields id type).within _).mono fun _ hg h _ => hg h
  | prune => exact .ok rfl fun h _ => h.toDrawn.prune
  | refine id typeOf =>
    exact ((EditM.refineObjectType_yields id typeOf).within _).mono fun _ hg h _ => hg h

/-! ## Runs of edits -/

namespace Graph

variable {ε : Type}
variable {g : Graph}

def after (g : Graph) (e : Edit ε) : Graph :=
  (e.perform.run.run g).2

def afterAll (g : Graph) (edits : List (Edit ε)) : Graph :=
  edits.foldl after g

def Allows (g : Graph) : List (Edit ε) → Prop
  | [] => True
  | e :: edits => e.Allowed g ∧ (g.after e).Allows edits

instance decidableAllows (g : Graph) : (edits : List (Edit ε)) → Decidable (g.Allows edits)
  | [] => .isTrue trivial
  | e :: edits =>
    have := decidableAllows (g.after e) edits
    inferInstanceAs (Decidable (_ ∧ _))

theorem WellWired.after {e : Edit ε} (h : g.WellWired) (hallowed : e.Allowed g) :
    (g.after e).WellWired := by
  rcases e.perform_yields g with ⟨_, g', hrun, hg'⟩ | ⟨_, hrun⟩ <;> rw [Graph.after, hrun]
  · exact hg' h hallowed
  · exact h

theorem WellWired.afterAll {edits : List (Edit ε)} (h : g.WellWired) (hallowed : g.Allows edits) :
    (g.afterAll edits).WellWired := by
  induction edits generalizing g with
  | nil => exact h
  | cons e edits ih => exact ih (h.after hallowed.1) hallowed.2

end Graph

/-- However a graph is made from nothing by edits, its edges fit their ports, have ids of their own
and share neither an input nor a flow port, so all its issues are about its markers. An edit that
fails changes nothing. -/
theorem issues_afterAll {ε : Type} (edits : List (Edit ε)) (h : Graph.empty.Allows edits) :
    (∀ i ∈ (Graph.empty.afterAll edits).issues, i.target = .graph) ∧
      (∀ e ∈ (Graph.empty.afterAll edits).edges,
        (Graph.empty.afterAll edits).edgeIssue? e = none) ∧
      ((Graph.empty.afterAll edits).edges.map Edge.id).Nodup ∧
      (((Graph.empty.afterAll edits).edges.filter Edge.isIo).map
        fun e => (e.target, e.targetHandle)).Nodup ∧
      (((Graph.empty.afterAll edits).edges.filter Edge.isFlow).flatMap
        fun e => [(e.source, e.sourceHandle), (e.target, e.targetHandle)]).Nodup ∧
      ∀ before e later, edits = before ++ e :: later →
        ∀ cause g, e.perform.run.run (Graph.empty.afterAll before) = (.error cause, g) →
          g = Graph.empty.afterAll before := by
  have hwired := Graph.wellWired_empty.afterAll h
  refine ⟨fun _ => hwired.target_of_mem_issues,
    fun e he => Graph.edgeIssue?_eq_none (hwired.fits e he), hwired.nodup_edgeIds,
    hwired.nodup_inputs, hwired.nodup_handles, ?_⟩
  intro before e later _ cause g hcause
  rcases e.perform_yields (Graph.empty.afterAll before) with ⟨_, _, hrun, -⟩ | ⟨_, hrun⟩ <;>
    rw [hrun] at hcause <;> cases hcause
  rfl

/-- The recipient of a payment cannot be a coin. -/
def Edit.payToCoin : Edit LookupError :=
  .connectIo "coin" "out" "pay" "in_recipient"

/-- A payment that becomes a split: an edge is refused, one is dropped with the port it fed, and
the end is taken away. -/
def Edit.redrawnPayment : List (Edit LookupError) :=
  [.addNode (.start "start"), .addNode (.finish "end"),
    .addNode (.var ⟨"coin", "coin", .anyObject, some (.str "0x5")⟩),
    .addNode (.command "pay" (.transferObjects 1 true)),
    .connectIo "coin" "out" "pay" "in_object_0", payToCoin,
    .connectFlow "start" "pay", .connectFlow "pay" "end",
    .refine "coin" fun _ => .ok "0x2::coin::Coin",
    .patchCommand "pay" fun _ => .splitCoins 2,
    .connectIo "coin" "out" "pay" "in_coin", .removeNode "end"]

theorem issues_afterAll_redrawnPayment :
    Graph.empty.Allows Edit.redrawnPayment ∧
      (Graph.empty.afterAll Edit.redrawnPayment).edges.map Edge.id =
        ["start:next->pay:prev", "coin:out->pay:in_coin"] ∧
      (Graph.empty.afterAll Edit.redrawnPayment).issues = [⟨.graph, .missingMarker .finish⟩] ∧
      (∀ i ∈ (Graph.empty.afterAll Edit.redrawnPayment).issues, i.target = .graph) ∧
      Edit.payToCoin.perform.run.run (Graph.empty.afterAll (Edit.redrawnPayment.take 5)) =
        (.error (.inl (.types .anyObject .address)),
          Graph.empty.afterAll (Edit.redrawnPayment.take 5)) := by
  have h : Graph.empty.Allows Edit.redrawnPayment := by decide +kernel
  obtain ⟨htarget, -, -, -, -, hfailed⟩ := issues_afterAll _ h
  have hcause : (Edit.payToCoin.perform.run.run
      (Graph.empty.afterAll (Edit.redrawnPayment.take 5))).1 =
        .error (.inl (.types .anyObject .address)) := by
    decide +kernel
  have hleft := hfailed _ Edit.payToCoin _ rfl _ _ (Prod.ext hcause rfl)
  exact ⟨h, by decide +kernel, by decide +kernel, htarget, Prod.ext hcause hleft⟩

end TxGraph
