import TxGraph.Proofs.Graph.Order
import TxGraph.Proofs.Program.Inactive

/-!
# Order of edges

Neither the order of execution nor the program depends on the order in which the edges of a graph
are listed. Walks do not, so the active ids do not, and of ready ids one goes first by its
declaration alone. A port gets the same value as long as one edge at most comes to it.
-/

namespace TxGraph

namespace Graph

variable {g : Graph} {edges : List Edge} (h : edges.Perm g.edges)

include h

theorem mem_links_perm {a b : String} : (a, b) ∈ { g with edges }.links ↔ (a, b) ∈ g.links :=
  ((h.filter Edge.isFlow).map _).mem_iff

theorem walk_perm {a b : String} : { g with edges }.links.Walk a b ↔ g.links.Walk a b :=
  ⟨Flow.Links.Walk.mono fun _ => (mem_links_perm h).mp,
    Flow.Links.Walk.mono fun _ => (mem_links_perm h).mpr⟩

theorem activeIds_perm (start finish : String) :
    { g with edges }.activeIds start finish = g.activeIds start finish := by
  refine activeIds_congr (p := fun _ => true) (List.filter_true _).symm fun id => ?_
  simp only [walk_perm h, and_true]

/-- The order of execution does not depend on the order of edges. -/
theorem flow_perm : { g with edges }.flow = g.flow := by
  have hmarkers : { g with edges }.start? = g.start? ∧ { g with edges }.finish? = g.finish? :=
    ⟨rfl, rfl⟩
  unfold flow
  rw [hmarkers.1, hmarkers.2]
  split
  case h_2 => rfl
  case h_1 start finish hs hf =>
    have hsequence := Flow.sequence_congr (g.activeIds_nodup start.id finish.id)
      fun u _ v _ => mem_links_perm h (a := u) (b := v)
    simp only [activeIds_perm h, hsequence]
    rfl

end Graph

namespace Compile

open TxGraph.Graph

variable {g : Graph} {edges : List Edge} (h : edges.Perm g.edges)

include h

theorem usedVariables_perm (order : List String) :
    usedVariables { g with edges } order = usedVariables g order := by
  have hused (id : String) : (usedSources { g with edges } order).contains id =
      (usedSources g order).contains id := by
    rw [Bool.eq_iff_iff, List.contains_iff_mem, List.contains_iff_mem]
    exact ((h.filter _).map _).mem_iff
  simp only [usedVariables, hused]

variable (hports : ((g.edges.filter Edge.isIo).map fun e => (e.target, e.targetHandle)).Nodup)

include hports

theorem incoming?_perm (node port : String) :
    { g with edges }.incoming? node port = g.incoming? node port := by
  have hfeeds {e : Edge} (hfound : g.incoming? node port = some e) : e.feeds node port = true :=
    List.find?_some (p := (Edge.feeds · node port)) hfound
  cases hfound : g.incoming? node port with
  | none =>
    refine List.find?_eq_none.mpr fun e he => ?_
    exact List.find?_eq_none.mp hfound e (h.mem_iff.mp he)
  | some e =>
    have hmem : e ∈ edges := h.mem_iff.mpr (List.mem_of_find?_eq_some hfound)
    cases hfound' : { g with edges }.incoming? node port with
    | none => exact absurd (hfeeds hfound) (List.find?_eq_none.mp hfound' e hmem)
    | some f =>
      have hf : f ∈ g.edges := h.mem_iff.mp (List.mem_of_find?_eq_some hfound')
      rw [eq_of_feeds hports (List.mem_of_find?_eq_some hfound) hf (hfeeds hfound)
        (List.find?_some (p := (Edge.feeds · node port)) hfound')]

theorem operations_perm (order : List String) (s : Scope) :
    operations { g with edges } order s = operations g order s := by
  induction order generalizing s with
  | nil => rfl
  | cons id rest ih =>
    have hnode : { g with edges }.node? id = g.node? id := rfl
    rw [operations, operations, hnode]
    cases (g.node? id).bind Node.command? with
    | none => exact ih s
    | some c =>
      have hinput (port : String) : s.input { g with edges } id port = s.input g id port := by
        rw [Scope.input, Scope.input, incoming?_perm h hports]
      simp only [operation_congr hinput c, ih]

theorem program_perm (order reserved : List String) :
    program { g with edges } order reserved = program g order reserved := by
  simp only [program, usedVariables_perm h, operations_perm h hports]

end Compile

namespace Graph

/-- The program does not depend on the order of edges, if one edge at most comes to an input. -/
theorem compile_perm {g : Graph} {edges : List Edge} (h : edges.Perm g.edges)
    (hports : ((g.edges.filter Edge.isIo).map fun e => (e.target, e.targetHandle)).Nodup)
    (reserved : List String) : { g with edges }.compile reserved = g.compile reserved := by
  have hmarkers : { g with edges }.start? = g.start? ∧ { g with edges }.finish? = g.finish? :=
    ⟨rfl, rfl⟩
  rw [compile, compile, hmarkers.1, hmarkers.2, flow_perm h, Compile.program_perm h hports]

/-- Of what is ready the sequence takes the start, and else what was declared first. -/
structure Canonical (g : Graph) (start : String) : Prop where
  runs : g.Runs g.sequence
  /-- The same ids are taken in whatever order the active ones are found. -/
  anyOrder : ∀ found : List String, found.Perm g.flow.active →
    (Flow.Countdown.start g.flow.active found g.links).run g.flow.active g.links
      g.flow.active.length = g.sequence
  prompt : g.Prompt start g.sequence
  declared : ∀ pre x post, g.sequence = pre ++ x :: post → ¬ g.Ready pre start →
    ∀ y, g.Ready pre y → g.position x ≤ g.position y
  /-- No order of the same flow comes before it lexicographically, where the start counts as
  declared before all. -/
  least : ∀ other, g.Runs other →
    g.sequence = other ∨ List.Lex (g.Earlier start) g.sequence other
  /-- None that takes the start as soon as it is ready comes before it by declaration alone. -/
  leastDeclared : ∀ other, g.Runs other → g.Prompt start other →
    g.sequence = other ∨ List.Lex (fun a b => g.position a < g.position b) g.sequence other

/-- **The order of execution is canonical and does not depend on the order of edges**, and neither
does the program, if one edge at most comes to an input. -/
theorem flow_canonical {g : Graph} (hids : (g.nodes.map Node.id).Nodup) :
    (∀ start finish, g.start? = some start → g.finish? = some finish → g.Canonical start.id) ∧
    ∀ edges : List Edge, edges.Perm g.edges → { g with edges }.flow = g.flow ∧
      (((g.edges.filter Edge.isIo).map fun e => (e.target, e.targetHandle)).Nodup →
        ∀ reserved, { g with edges }.compile reserved = g.compile reserved) := by
  refine ⟨fun start finish hstart hfinish => ?_,
    fun edges hperm => ⟨flow_perm hperm, compile_perm hperm⟩⟩
  exact {
    runs := runs_sequence
    anyOrder := fun _ hfound => Flow.run_start_eq_sequence g.active_nodup hfound
    prompt := prompt_sequence hids hstart hfinish
    declared := fun _ _ _ hsplit hnot _ => position_le_of_sequence hids hstart hfinish hsplit hnot
    least := fun _ => eq_or_lex_of_runs hids hstart hfinish
    leastDeclared := fun _ => eq_or_lex_position_of_prompt hids hstart hfinish }

/-- The flow comes to a command through an id that is not a node. So the command is ready from the
beginning, as the start is, which is declared after it. -/
def lateStart : Graph where
  nodes := [.command "d" (.splitCoins 1), .command "c" (.splitCoins 1),
    .var ⟨"x", "amount", .integer .u64, some (.str "5")⟩, .start "s", .finish "e"]
  edges := [.flow "s" "nowhere", .flow "nowhere" "c", .flow "c" "e", .flow "s" "d", .flow "d" "e",
    .io "x" "out" "c" "in_amount_0" none, .io "x" "out" "d" "in_amount_0" none]

theorem flow_canonical_lateStart :
    (lateStart.nodes.map Node.id).Nodup ∧ lateStart.sequence = ["s", "d", "c", "e"] ∧
    lateStart.Canonical "s" ∧
    { lateStart with edges := lateStart.edges.reverse }.flow = lateStart.flow ∧
    { lateStart with edges := lateStart.edges.reverse }.compile [] = lateStart.compile [] := by
  have hids : (lateStart.nodes.map Node.id).Nodup := by decide
  have hports : ((lateStart.edges.filter Edge.isIo).map fun e => (e.target, e.targetHandle)).Nodup := by
    decide
  obtain ⟨hcanonical, hperm⟩ := flow_canonical hids
  obtain ⟨hflow, hcompile⟩ := hperm _ (List.reverse_perm lateStart.edges)
  exact ⟨hids, rfl, hcanonical (.start "s") (.finish "e") rfl rfl, hflow, hcompile hports []⟩

end Graph

end TxGraph
