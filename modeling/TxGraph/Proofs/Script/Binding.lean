import TxGraph.Proofs.Lowering.Invariant
import TxGraph.Proofs.Lowering.Scope

/-!
# Names that scripts declare

The writer takes its names from a pool in which the reserved names and the outputs of the program
are taken. So each line declares new names: names from the pool, or the outputs of its operation. A
handle is written as a name only once a line has declared it. What the pool does not know is that a
module may import `fromHex`; this is the one name that a module can declare twice.
-/

namespace TxGraph

namespace Script

/-! ## Uses -/

def Expr.constants : Expr → List String
  | name n => [n]
  | _ => []

def Expr.mentions : Expr → List String
  | name n => [n]
  | sender => ["tx", "myAddress"]
  | raw _ => ["tx", "fromHex"]
  | _ => ["tx"]

def declaredBy (lines : List Line) : List String :=
  lines.flatMap Line.declares

@[simp]
theorem declaredBy_concat (lines : List Line) (line : Line) :
    declaredBy (lines ++ [line]) = declaredBy lines ++ line.declares := by
  simp [declaredBy]

/-- Each line mentions constants that lines before it declare. -/
def Ordered (lines : List Line) : Prop :=
  ∀ k line, lines[k]? = some line → ∀ e ∈ line.exprs, e.constants ⊆ declaredBy (lines.take k)

theorem Ordered.concat {lines : List Line} (h : Ordered lines) {line : Line}
    (hline : ∀ e ∈ line.exprs, e.constants ⊆ declaredBy lines) : Ordered (lines ++ [line]) := by
  intro k l hk
  rcases Nat.lt_or_ge k lines.length with hlt | hge
  · rw [List.getElem?_append_left hlt] at hk
    rw [List.take_append_of_le_length hlt.le]
    exact h k l hk
  · rw [List.getElem?_append_right hge] at hk
    obtain ⟨hzero, rfl⟩ : k - lines.length = 0 ∧ line = l := by
      simpa [List.getElem?_singleton] using hk
    rw [show k = lines.length by omega, List.take_left]
    exact hline

/-! ## The writer -/

namespace Writer

def declared (w : Writer) : List String :=
  declaredBy w.lines.toList

/-- The lines declare distinct names and mention what was declared before. The names are those of
operations that are done, of all that have outputs, or else free of both the outputs and the
reserved names. -/
structure Binds (outs done : List String) (w : Writer) : Prop where
  free {name : String} : w.names.isTaken name = false →
    name ∉ NamePool.reserved ∧ name ∉ outs ∧ name ∉ w.declared
  distinct : w.declared.Nodup
  origin : ∀ name ∈ w.declared, name ∈ done ∨ name ∉ outs ∧ name ∉ NamePool.reserved
  ordered : Ordered w.lines.toList
  objects {id : String} {handle : Handle} : Directory.get? w.objects id = some handle →
    handle.expr.constants ⊆ w.declared

def binding (outs done : List String) : Lowering.Invariant Writer Handle where
  state := Binds outs done
  handle w handle := handle.expr.constants ⊆ w.declared

variable {outs done done' : List String} {w w' : Writer}

theorem Binds.push (h : Binds outs done w) (line : Line) (w' : Writer)
    (hlines : w'.lines = w.lines.push line) (hobjects : w'.objects = w.objects)
    (hexprs : ∀ e ∈ line.exprs, e.constants ⊆ w.declared) (hnodup : line.declares.Nodup)
    (hnew : ∀ name ∈ line.declares, name ∉ w.declared) (hdone : done ⊆ done')
    (horigin : ∀ name ∈ line.declares, name ∈ done' ∨ name ∉ outs ∧ name ∉ NamePool.reserved)
    (hfree : ∀ name, w'.names.isTaken name = false →
      w.names.isTaken name = false ∧ name ∉ line.declares) :
    Binds outs done' w' ∧ w.declared ⊆ w'.declared ∧ line.declares ⊆ w'.declared := by
  have hdeclared : w'.declared = w.declared ++ line.declares := by
    simp [declared, hlines]
  refine ⟨⟨fun hname => ?_, ?_, ?_, ?_, fun hget => ?_⟩, ?_, ?_⟩
  · obtain ⟨hname, hline⟩ := hfree _ hname
    obtain ⟨hreserved, houts, hw⟩ := h.free hname
    exact ⟨hreserved, houts, by simp [hdeclared, hw, hline]⟩
  · rw [hdeclared]
    exact List.nodup_append.mpr ⟨h.distinct, hnodup, fun a ha b hb heq => hnew b hb (heq ▸ ha)⟩
  · rw [hdeclared]
    refine List.forall_mem_append.mpr ⟨fun name hname => ?_, horigin⟩
    exact (h.origin name hname).imp_left fun hmem => hdone hmem
  · rw [hlines, Array.toList_push]
    exact h.ordered.concat hexprs
  · rw [hobjects] at hget
    rw [hdeclared]
    exact List.subset_append_of_subset_left _ (h.objects hget)
  · rw [hdeclared]
    exact List.subset_append_left _ _
  · rw [hdeclared]
    exact List.subset_append_right _ _

theorem Binds.alloc (h : Binds outs done w) (hint : String) (line : Line) (w' : Writer)
    (hnames : w'.names = (w.names.alloc hint).2) (hlines : w'.lines = w.lines.push line)
    (hobjects : w'.objects = w.objects) (hexprs : ∀ e ∈ line.exprs, e.constants ⊆ w.declared)
    (hdeclares : line.declares = [(w.names.alloc hint).1]) :
    Binds outs done w' ∧ w.declared ⊆ w'.declared ∧ line.declares ⊆ w'.declared := by
  have hname : w.names.isTaken (w.names.alloc hint).1 = false := (w.names.chosen_choose _).isTaken
  obtain ⟨hreserved, houts, hnew⟩ := h.free hname
  refine h.push line w' hlines hobjects hexprs (by simp [hdeclares]) ?_ (List.Subset.refl _) ?_ ?_
  · rw [hdeclares]
    exact List.forall_mem_singleton.mpr hnew
  · rw [hdeclares]
    exact List.forall_mem_singleton.mpr (.inr ⟨houts, hreserved⟩)
  · intro name htaken
    rw [hnames, show (w.names.alloc hint).2 = w.names.take (w.names.alloc hint).1 from rfl,
      NamePool.isTaken_take, Bool.or_eq_false_iff, beq_eq_false_iff_ne] at htaken
    refine ⟨htaken.2, ?_⟩
    rw [hdeclares, List.mem_singleton]
    exact fun heq => htaken.1 heq.symm

theorem keeps_of_subset (h : w.declared ⊆ w'.declared) : (binding outs done).Keeps w w' :=
  fun _ hhandle => List.Subset.trans hhandle h

/-! ## Objects and literals -/

theorem Binds.hoist (h : Binds outs done w) (symbol : Option String) {value : Expr}
    (hvalue : value.constants ⊆ w.declared) :
    Binds outs done (w.hoist symbol value).2 ∧ w.declared ⊆ (w.hoist symbol value).2.declared ∧
      (w.hoist symbol value).1.constants ⊆ (w.hoist symbol value).2.declared := by
  cases symbol with
  | none => exact ⟨h, List.Subset.refl _, hvalue⟩
  | some hint =>
    exact h.alloc hint (.const (w.names.alloc hint).1 value) (w.hoist (some hint) value).2 rfl rfl
      rfl (List.forall_mem_singleton.mpr hvalue) rfl

theorem Binds.known (h : Binds outs done w) (id : String) {value : Expr}
    (hvalue : value.constants ⊆ w.declared) (symbol : Option String) :
    (binding outs done).Next w (w.known id value symbol).2 ∧
      (binding outs done).handle (w.known id value symbol).2 (w.known id value symbol).1 := by
  unfold Writer.known
  split
  case h_1 handle hget => exact ⟨⟨h, .refl _ _⟩, h.objects hget⟩
  case h_2 =>
    obtain ⟨hbinds, hsubset, hexpr⟩ := h.hoist symbol hvalue
    refine ⟨⟨⟨hbinds.free, hbinds.distinct, hbinds.origin, hbinds.ordered, fun hget => ?_⟩,
      keeps_of_subset hsubset⟩, hexpr⟩
    rw [Directory.get?_insert] at hget
    split at hget
    · cases hget
      exact hexpr
    · exact hbinds.objects hget

theorem object_binds (h : Binds outs done w) {o : ObjectRef} {symbol : Option String}
    {handle : Handle} (ho : object o symbol w = .ok (handle, w')) :
    (binding outs done).Next w w' ∧ (binding outs done).handle w' handle := by
  have hknown {value : Expr} (hvalue : value.constants = []) {address : Except Refusal String}
      (hk : (do return w.known (← address) value symbol) = Except.ok (handle, w')) :
      (binding outs done).Next w w' ∧ (binding outs done).handle w' handle := by
    obtain ⟨id, -, hk⟩ := bind_eq_ok.mp hk
    have hstep := h.known id (hvalue ▸ List.nil_subset _) symbol
    rwa [Except.ok.inj hk] at hstep
  cases o with
  | gas =>
    cases ho
    exact ⟨⟨h, .refl _ _⟩, List.nil_subset _⟩
  | _ => exact hknown rfl ho

theorem literal_binds (h : Binds outs done w) {kind : ParamKind} {value : Literal}
    {symbol : Option String} {handle : Handle}
    (hl : literal kind value symbol w = .ok (handle, w')) :
    (binding outs done).Next w w' ∧ (binding outs done).handle w' handle := by
  unfold literal at hl
  split at hl
  · have hnone : Expr.sender.constants ⊆ w.declared := List.nil_subset _
    obtain ⟨hbinds, hsubset, hexpr⟩ := h.hoist symbol hnone
    cases hl
    exact ⟨⟨hbinds, keeps_of_subset hsubset⟩, hexpr⟩
  · obtain ⟨encoded, -, hl⟩ := bind_eq_ok.mp hl
    have hnone : (encoded.type.elim (Expr.raw encoded.bytes) (.pure ·
        (PureValue.canonical encoded.type encoded.bytes))).constants ⊆ w.declared := by
      cases encoded.type <;> exact List.nil_subset _
    obtain ⟨hbinds, hsubset, hexpr⟩ := h.hoist symbol hnone
    cases hl
    exact ⟨⟨hbinds, keeps_of_subset hsubset⟩, hexpr⟩

theorem exprs_subset {handles : List Handle}
    (h : ∀ a ∈ handles, (binding outs done).handle w a) :
    ∀ e ∈ exprs handles, e.constants ⊆ w.declared := by
  intro e he
  obtain ⟨a, ha, rfl⟩ := List.mem_map.mp he
  exact h a ha

/-- Gathering operands, the writer declares names from the pool only. -/
theorem gathers_binding (outs done : List String) :
    Lowering.Gathers Writer.target (binding outs done) where
  object _ _ h ho := object_binds h ho
  pure _ _ _ h hl := literal_binds h hl
  makeMoveVec {w w' a elems} elem h helems hv := by
    obtain ⟨index, -, hv⟩ := bind_eq_ok.mp hv
    cases hv
    let line := Line.makeMoveVec (w.names.alloc "items").1 elem (exprs elems)
    let pushed := { w with names := (w.names.alloc "items").2 }.issue line
      ⟨.makeMoveVec, elem, [], args elems⟩
    obtain ⟨hbinds, hsubset, hdeclared⟩ :=
      h.alloc "items" line pushed rfl rfl rfl (exprs_subset helems) rfl
    exact ⟨⟨hbinds, keeps_of_subset hsubset⟩, hdeclared⟩

/-! ## Operations -/

/-- The line of a command: it mentions what is declared, and declares outputs that are not yet. -/
structure Fits (outs done : List String) (w : Writer) (line : Line) : Prop where
  exprs : ∀ e ∈ line.exprs, e.constants ⊆ w.declared
  nodup : line.declares.Nodup
  outs : line.declares ⊆ outs
  undone : ∀ name ∈ line.declares, name ∉ done

theorem Binds.issue (h : Binds outs done w) {line : Line} (hline : Fits outs done w line)
    (call : TracedCall) :
    (binding outs (done ++ line.declares)).Next w (w.issue line call) ∧
      line.declares ⊆ (w.issue line call).declared := by
  have hnew : ∀ name ∈ line.declares, name ∉ w.declared := by
    intro name hname hmem
    rcases h.origin name hmem with hin | ⟨hout, -⟩
    · exact hline.undone name hname hin
    · exact hout (hline.outs hname)
  obtain ⟨hbinds, hsubset, hdeclared⟩ := h.push line (w.issue line call) rfl rfl hline.exprs
    hline.nodup hnew (List.subset_append_left done line.declares)
    (fun name hname => .inl (List.mem_append_right _ hname))
    (fun name hname => ⟨hname, fun hmem => (h.free hname).2.1 (hline.outs hmem)⟩)
  exact ⟨⟨hbinds, keeps_of_subset hsubset⟩, hdeclared⟩

theorem results_subset (out : List String) (index : UInt16) :
    ∀ a ∈ results index out, a.expr.constants ⊆ out := by
  intro a ha
  obtain ⟨i, hi, rfl⟩ := List.mem_mapIdx.mp ha
  exact List.cons_subset.mpr ⟨List.getElem_mem hi, List.nil_subset _⟩

theorem single_subset (out : String) (index : UInt16) :
    ∀ a ∈ [single index out], a.expr.constants ⊆ [out] :=
  List.forall_mem_singleton.mpr fun _ => id

end Writer

section

open Lowering Writer

variable {outs done : List String} {w : Walk Writer Handle}

/-- A call that issues a command, whose results are then bound. They are written by the names that
the line of the command declares. -/
theorem issue_stands {α : Type} (c : Context Writer Handle) (line : Line) (given : UInt16 → α)
    (handles : α → List Handle) {f : Writer → Except Refusal (α × Writer)}
    {name : α → WalkM Writer Handle Unit}
    (hname : ∀ a w, (name a).run w =
      .ok ((), { w with env := bindEnv line.declares (handles a) w.env }))
    (hgiven : ∀ index, ∀ a ∈ handles (given index), a.expr.constants ⊆ line.declares)
    (hw : (binding outs done).Stands w) (hline : Fits outs done w.target line)
    (hf : ∀ {a w'}, f w.target = .ok (a, w') →
      ∃ index call, a = given index ∧ w' = w.target.issue line call) :
    Ensures (fun _ => True) w (c.call f >>= name) fun _ w' =>
      (binding outs (done ++ line.declares)).Stands w' := by
  let J := binding outs (done ++ line.declares)
  have hcall {a : α} {w' : Writer} (hok : f w.target = .ok (a, w')) :
      J.state w' ∧ (∀ b, (binding outs done).handle w.target b → J.handle w' b) ∧
        ∀ b ∈ handles a, J.handle w' b := by
    obtain ⟨index, call, rfl, rfl⟩ := hf hok
    obtain ⟨hnext, hdeclared⟩ := hw.state.issue hline call
    exact ⟨hnext.state, hnext.keeps, fun b hb => List.Subset.trans (hgiven index b hb) hdeclared⟩
  refine Ensures.bind (Invariant.Stands.call c hw hcall) fun a w' h => ?_
  rw [Ensures, hname]
  exact .ok (h.1.bindEnv line.declares h.2)

theorem issued_of_nextCommand {α : Type} {s s' : Writer} {line : Line} {call : TracedCall}
    {given : UInt16 → α} {a : α}
    (h : (do let index ← s.nextCommand; return (given index, s.issue line call)) = .ok (a, s')) :
    ∃ index call, a = given index ∧ s' = s.issue line call := by
  obtain ⟨index, -, h⟩ := bind_eq_ok.mp h
  cases h
  exact ⟨index, _, rfl, rfl⟩

/-- An operation issues one command, which declares its outputs. -/
theorem operation_binds (site : Site) (sender : Option String) (depth : Nat) {op : Operation}
    (hnodup : op.outputs.Nodup) (houts : op.outputs ⊆ outs)
    (hdone : ∀ name ∈ op.outputs, name ∉ done) (hw : (binding outs done).Stands w) :
    Ensures (fun _ => True) w ((Context.mk Writer.target site sender depth).operation op)
      fun _ w' => (binding outs (done ++ op.outputs)).Stands w' := by
  have G : Gathers Writer.target (binding outs done) := gathers_binding outs done
  cases op with
  | splitCoins coin amounts out =>
    refine Invariant.Yields.andThen (handle_yields G _ coin hw) fun {coin _} hw _ hcoin => ?_
    refine Invariant.Yields.andThen (arguments_yields G _ 0 _ hw) fun {amounts _} hw hk hamounts => ?_
    refine issue_stands _ (.splitCoins out coin.expr (exprs amounts)) (results · out) id
      (run_bindAll _) (results_subset out) hw
      ⟨List.forall_mem_cons.mpr ⟨hk _ hcoin, exprs_subset hamounts⟩, hnodup, houts, hdone⟩ fun h => ?_
    obtain ⟨index, -, h⟩ := bind_eq_ok.mp h
    obtain ⟨_, -, h⟩ := bind_eq_ok.mp h
    cases h
    exact ⟨index, _, rfl, rfl⟩
  | mergeCoins destination sources =>
    refine Invariant.Yields.andThen (handle_yields G _ destination hw) fun {dest _} hw _ hdest => ?_
    refine Invariant.Yields.andThen (spread_yields G _ _ sources hw) fun {sources _} hw hk hsources => ?_
    rw [← bind_pure (Context.call _ _)]
    exact issue_stands _ (.mergeCoins dest.expr (exprs sources)) (fun _ => ()) (fun _ => [])
      (fun _ _ => rfl) (fun _ => nofun) hw
      ⟨List.forall_mem_cons.mpr ⟨hk _ hdest, exprs_subset hsources⟩, hnodup, houts, hdone⟩
      issued_of_nextCommand
  | transferObjects objects recipient =>
    refine Invariant.Yields.andThen (spread_yields G _ _ objects hw) fun {objects _} hw _ hobjects => ?_
    refine Invariant.Yields.andThen (argument_yields G _ _ recipient hw)
      fun {recipient _} hw hk hrecipient => ?_
    have hkept := exprs_subset fun a ha => hk a (hobjects a ha)
    rw [← bind_pure (Context.call _ _)]
    exact issue_stands _ (.transferObjects (exprs objects) recipient.expr) (fun _ => ())
      (fun _ => []) (fun _ _ => rfl) (fun _ => nofun) hw
      ⟨List.forall_mem_append.mpr ⟨hkept, List.forall_mem_singleton.mpr hrecipient⟩, hnodup, houts,
        hdone⟩ issued_of_nextCommand
  | makeMoveVec elem elems out =>
    refine Invariant.Yields.andThen (spread_yields G _ _ elems hw) fun {elems _} hw _ helems => ?_
    exact issue_stands _ (.makeMoveVec out elem (exprs elems)) (single · out) ([·])
      (fun _ _ => rfl) (single_subset out) hw
      ⟨exprs_subset helems, hnodup, houts, hdone⟩ issued_of_nextCommand
  | moveCall package module function typeArgs args out =>
    refine Invariant.Yields.andThen (typeNames_yields G 0 typeArgs hw) fun {types _} hw _ _ => ?_
    refine Invariant.Yields.andThen (arguments_yields G _ 0 args hw) fun {args _} hw _ hargs => ?_
    refine issue_stands _ (.moveCall out package module function types (exprs args))
      (results · out) id (run_bindAll _) (results_subset out) hw
      ⟨exprs_subset hargs, hnodup, houts, hdone⟩ fun h => ?_
    obtain ⟨index, -, h⟩ := bind_eq_ok.mp h
    obtain ⟨_, -, h⟩ := bind_eq_ok.mp h
    obtain ⟨_, -, h⟩ := bind_eq_ok.mp h
    cases h
    exact ⟨index, _, rfl, rfl⟩
  | publish modules dependencies out =>
    exact issue_stands _ (.publish out modules dependencies) (single · out) ([·])
      (fun _ _ => rfl) (single_subset out) hw
      ⟨by simp [Line.exprs], hnodup, houts, hdone⟩ issued_of_nextCommand
  | upgrade modules dependencies package ticket out =>
    refine Invariant.Yields.andThen (handle_yields G _ ticket hw) fun {ticket _} hw _ hticket => ?_
    refine issue_stands _ (.upgrade out modules dependencies package ticket.expr) (single · out)
      ([·]) (fun _ _ => rfl) (single_subset out) hw
      ⟨List.forall_mem_singleton.mpr hticket, hnodup, houts, hdone⟩ fun h => ?_
    obtain ⟨index, -, h⟩ := bind_eq_ok.mp h
    obtain ⟨_, -, h⟩ := bind_eq_ok.mp h
    cases h
    exact ⟨index, _, rfl, rfl⟩

/-- Each operation declares its own outputs. -/
theorem operations_binds (sender : Option String) (depth : Nat) {ops : List Operation} (i : Nat)
    (hnodup : (done ++ ops.flatMap Operation.outputs).Nodup)
    (houts : ops.flatMap Operation.outputs ⊆ outs) (hw : (binding outs done).Stands w) :
    Ensures (fun _ => True) w (operations Writer.target sender depth i ops)
      fun _ w' => Binds outs (done ++ ops.flatMap Operation.outputs) w'.target := by
  induction ops generalizing done i w with
  | nil =>
    rw [List.flatMap_nil, List.append_nil]
    exact .pure hw.state
  | cons op rest ih =>
    rw [List.flatMap_cons, ← List.append_assoc] at hnodup ⊢
    rw [List.flatMap_cons, List.append_subset] at houts
    obtain ⟨-, hop, hdisjoint⟩ := List.nodup_append.mp (List.nodup_append.mp hnodup).1
    have hundone : ∀ name ∈ op.outputs, name ∉ done := fun name hname hmem =>
      hdisjoint name hmem name hname rfl
    have hreset : (binding outs done).Stands { w with memo := [] } :=
      ⟨hw.state, hw.env, fun h => absurd h (by simp)⟩
    refine Ensures.modify_bind (Ensures.bind
      (operation_binds _ sender depth hop houts.1 hundone hreset) fun _ _ hw' => ?_)
    exact ih (i + 1) hnodup houts.2 hw'

theorem not_bound_initialEnv {vars : List Binding} {name : String} {handle : Handle} :
    Directory.get? (initialEnv vars) name ≠ some (.bound handle) := by
  intro h
  obtain ⟨v, -, -, heq⟩ := init_of_initialEnv h
  cases heq

theorem names_start (p : Program) :
    (Writer.start p).names = .seeded (p.ops.flatMap Operation.outputs) := by
  unfold Writer.start
  with_reducible rfl

theorem binds_start (p : Program) : Binds (p.ops.flatMap Operation.outputs) [] (Writer.start p) where
  free {name} hname := by
    rw [names_start, NamePool.isTaken_seeded] at hname
    obtain ⟨hreserved, houts⟩ : name ∉ NamePool.reserved ∧ name ∉ p.ops.flatMap Operation.outputs := by
      simpa using hname
    exact ⟨hreserved, houts, List.not_mem_nil⟩
  distinct := List.nodup_nil
  origin _ hname := absurd hname List.not_mem_nil
  ordered _ _ hk := absurd hk (by simp [Writer.start])
  objects h := absurd h (by simp [Writer.start, Directory.get?])

end

/-! ## Modules -/

/-- The reserved names that no module declares: words of the language. -/
def keywords : List String :=
  NamePool.reserved.filter fun word => word ∉ ["tx", "myAddress", "Transaction"]

variable {s : Script} {name : String}

theorem nodup_header (s : Script) : s.header.Nodup := by
  unfold header
  cases s.usesHex <;> cases s.declaresSender <;> decide +kernel

theorem mem_header (h : name ∈ s.header) :
    name = "fromHex" ∧ s.usesHex = true ∨ name ∈ ["tx", "myAddress", "Transaction"] := by
  unfold header at h
  cases hx : s.usesHex <;> cases s.declaresSender <;> simp_all <;> tauto

theorem not_keyword_of_mem_header (h : name ∈ s.header) : name ∉ keywords := by
  rcases mem_header h with ⟨rfl, -⟩ | hfixed
  · decide +kernel
  · intro hkeyword
    exact of_decide_eq_true (List.mem_filter.mp hkeyword).2 hfixed

theorem nodup_declared_iff (hbody : (declaredBy s.lines).Nodup)
    (hfree : ∀ name ∈ declaredBy s.lines, name ∉ NamePool.reserved) :
    s.declared.Nodup ↔ ¬ (s.usesHex = true ∧ "fromHex" ∈ declaredBy s.lines) := by
  have hfixed : ∀ name ∈ ["tx", "myAddress", "Transaction"], name ∈ NamePool.reserved := by
    decide +kernel
  rw [declared, List.nodup_append]
  constructor
  · rintro ⟨-, -, hdisjoint⟩ ⟨hhex, hmem⟩
    exact hdisjoint "fromHex" (by simp [header, hhex]) "fromHex" hmem rfl
  · intro hclash
    refine ⟨nodup_header s, hbody, ?_⟩
    rintro name hheader _ hline rfl
    rcases mem_header hheader with ⟨rfl, hhex⟩ | hin
    · exact hclash ⟨hhex, hline⟩
    · exact hfree name hline (hfixed name hin)

/-- What an expression mentions beside constants is declared at the top. -/
theorem mem_header_of_mentions {line : Line} (hline : line ∈ s.lines) {e : Expr}
    (he : e ∈ line.exprs) (hname : name ∈ e.mentions) : name ∈ s.header ∨ name ∈ e.constants := by
  have htop : "tx" ∈ s.header := by simp [header]
  cases e with
  | name n => exact .inr hname
  | sender =>
    have hsender : s.declaresSender = true :=
      List.any_eq_true.mpr ⟨line, hline, List.any_eq_true.mpr ⟨_, he, rfl⟩⟩
    simp only [Expr.mentions, List.mem_cons, List.not_mem_nil, or_false] at hname
    rcases hname with rfl | rfl
    · exact .inl htop
    · exact .inl (by simp [header, hsender])
  | raw bytes =>
    have hhex : s.usesHex = true :=
      List.any_eq_true.mpr ⟨line, hline, List.any_eq_true.mpr ⟨_, he, rfl⟩⟩
    simp only [Expr.mentions, List.mem_cons, List.not_mem_nil, or_false] at hname
    rcases hname with rfl | rfl
    · exact .inl htop
    · exact .inl (by simp [header, hhex])
  | _ =>
    cases List.mem_singleton.mp hname
    exact .inl htop

/-- **Scripts bind their names.** The names that the module of a compiled program declares are
distinct, unless it imports `fromHex` and a line declares that name too. None of them is a word of
the language, and what a line mentions is declared at the top or by a line before it. -/
theorem binds_of_ofProgram {g : Graph} {reserved : List String} {p : Program} {o : ExecOptions}
    {s : Script} {trace : CallTrace} (h : g.compile reserved = .ok p)
    (hs : Script.ofProgram p o = .ok (s, trace)) :
    (s.declared.Nodup ↔ ¬ (s.usesHex = true ∧ "fromHex" ∈ declaredBy s.lines)) ∧
    (∀ name ∈ s.declared, name ∉ keywords) ∧
    ∀ k line, s.lines[k]? = some line → ∀ e ∈ line.exprs, ∀ name ∈ e.mentions,
      name ∈ s.header ∨ name ∈ declaredBy (s.lines.take k) := by
  have hscoped := Program.wellScoped_of_compile h
  obtain ⟨-, houts, -⟩ := List.nodup_append.mp hscoped.distinct
  obtain ⟨w, hrun, hs⟩ := bind_eq_ok.mp hs
  obtain ⟨sender, -, hs⟩ := bind_eq_ok.mp hs
  cases hs
  obtain ⟨⟨_, walk⟩, hops, hwalk⟩ := bind_eq_ok.mp hrun
  cases hwalk
  have hstart : (Writer.binding (p.ops.flatMap Operation.outputs) []).Stands
      ⟨Writer.start p, Lowering.initialEnv p.vars, []⟩ :=
    ⟨binds_start p, fun hbound => absurd hbound not_bound_initialEnv,
      fun hmemo => absurd hmemo (by simp)⟩
  have hbinds := (operations_binds o.sender p.vars.length 0 houts (List.Subset.refl _)
    hstart).of_run hops
  have hfree : ∀ name ∈ walk.target.declared, name ∉ NamePool.reserved := by
    intro name hname
    rcases hbinds.origin name hname with hout | ⟨-, hfree⟩
    · exact (hscoped.free name (List.mem_append_right _ hout)).1
    · exact hfree
  refine ⟨nodup_declared_iff hbinds.distinct hfree, ?_, ?_⟩
  · refine List.forall_mem_append.mpr ⟨fun _ => not_keyword_of_mem_header, fun name hname hkeyword => ?_⟩
    exact hfree name hname (List.mem_of_mem_filter hkeyword)
  · intro k line hk e he name hname
    refine (mem_header_of_mentions (List.mem_of_getElem? hk) he hname).imp_right fun hconstant => ?_
    exact hbinds.ordered k line hk e he hconstant

/-- Bytes of no known type are given to a call, under a name that the module imports. -/
def namedFromHex : Graph where
  nodes := [.start "s", .finish "e", .var ⟨"x", "fromHex", .unknown, some (.str "0x01")⟩,
    .command "c" (.moveCall ⟨"0xa", "vault", "open", [], [.unknown], []⟩)]
  edges := [.flow "s" "c", .flow "c" "e", .io "x" "out" "c" "in_arg_0" none]

def namedFromHexProgram : Program where
  vars := [⟨"fromHex", .constant (.bytes [1])⟩]
  ops := [.moveCall "0xa" "vault" "open" [] [⟨.ref "fromHex", .other⟩] []]

def namedFromHexScript : Script where
  sender := none
  gasBudget := none
  lines := [.const "fromHex" (.raw [1]),
    .moveCall [] "0xa" "vault" "open" [] [.name "fromHex"]]

theorem binds_of_ofProgram_namedFromHex :
    namedFromHex.compile [] = .ok namedFromHexProgram ∧
    (Script.ofProgram namedFromHexProgram ⟨none, none⟩).map Prod.fst = .ok namedFromHexScript ∧
    ¬ namedFromHexScript.declared.Nodup ∧
    (∀ name ∈ namedFromHexScript.declared, name ∉ keywords) ∧
    ∀ k line, namedFromHexScript.lines[k]? = some line → ∀ e ∈ line.exprs, ∀ name ∈ e.mentions,
      name ∈ namedFromHexScript.header ∨
        name ∈ declaredBy (namedFromHexScript.lines.take k) := by
  have h : namedFromHex.compile [] = .ok namedFromHexProgram := by decide +kernel
  have hscript : (Script.ofProgram namedFromHexProgram ⟨none, none⟩).map Prod.fst =
      .ok namedFromHexScript := by
    decide +kernel
  cases hs : Script.ofProgram namedFromHexProgram ⟨none, none⟩ with
  | error e =>
    rw [hs] at hscript
    cases hscript
  | ok written =>
    obtain ⟨s, trace⟩ := written
    have heq : s = namedFromHexScript := by
      rw [hs] at hscript
      exact Except.ok.inj hscript
    subst heq
    obtain ⟨hnodup, hwords, hbound⟩ := binds_of_ofProgram h hs
    refine ⟨h, rfl, fun hdistinct => ?_, hwords, hbound⟩
    exact hnodup.mp hdistinct ⟨by decide, by decide⟩

end Script

end TxGraph
