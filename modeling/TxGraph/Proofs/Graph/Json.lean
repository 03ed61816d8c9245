import TxGraph.Graph.Json
import TxGraph.Proofs.Json.Record
import TxGraph.Proofs.Json.Tree

/-!
# Graphs read back

Types, commands, nodes and edges are read back from their records, and so are graphs. A graph can
be written if it is `Plain`: counts are words, and values of variables are free-form data without
doubles, in canonical form, and not null, which would be read as no value.
-/

namespace TxGraph

open Json

/-! ## Types -/

namespace DataType

theorem allToJson_eq (elems : List DataType) : toJson.allToJson elems = elems.map toJson := by
  induction elems with
  | nil => rfl
  | cons elem elems ih => rw [toJson.allToJson, ih, List.map_cons]

/-- A type nested in a type is less deep, so the fuel lasts. -/
theorem readJson_toJson {fuel : Nat} {t : DataType} (h : t.toJson.depth < fuel) (inner : Bool) :
    readJson fuel inner t.toJson = some t := by
  induction fuel generalizing t inner with
  | zero => cases h
  | succ fuel ih =>
    cases t with
    | scalar kind => cases kind <;> rfl
    | integer width => cases width <;> rfl
    | object tag => cases tag <;> rfl
    | vector elem =>
      rw [toJson] at h
      have hmember : ("elem", elem.toJson) ∈ [("kind", str "vector"), ("elem", elem.toJson)] := by
        simp
      have helem : elem.toJson.depth < fuel :=
        Nat.lt_of_lt_of_le (depth_lt_of_mem_obj hmember) (Nat.le_of_lt_succ h)
      show (readJson fuel true elem.toJson).bind (fun elem => some (vector elem)) = _
      rw [ih helem, Option.bind_some]
    | tuple elems =>
      rw [toJson, allToJson_eq] at h
      have hmember : ("elems", arr (elems.map toJson)) ∈
          [("kind", str "tuple"), ("elems", arr (elems.map toJson))] := by
        simp
      have helems : ∀ elem ∈ elems, elem.toJson.depth < fuel := by
        intro elem helem
        refine Nat.lt_trans (depth_lt_of_mem_arr (List.mem_map_of_mem helem)) ?_
        exact Nat.lt_of_lt_of_le (depth_lt_of_mem_obj hmember) (Nat.le_of_lt_succ h)
      have hlist : list? (readJson fuel true) (arr (elems.map toJson)) = some elems :=
        list?_map fun elem helem => ih (helems elem helem) true
      rw [toJson, allToJson_eq]
      show (list? (readJson fuel true) (arr (elems.map toJson))).bind
        (fun elems => some (tuple elems)) = _
      rw [hlist, Option.bind_some]
    | typeParam name => rfl
    | unknown => rfl

theorem ofJson?_toJson (inner : Bool) (t : DataType) : ofJson? inner t.toJson = some t :=
  readJson_toJson (Nat.lt_succ_self _) inner

theorem list?_toJson (types : List DataType) :
    list? (ofJson? true) (.arr (types.map toJson)) = some types :=
  list?_map fun t _ => ofJson?_toJson true t

theorem isExact_toJson : (t : DataType) → t.toJson.isExact = true
  | scalar _ => rfl
  | integer _ => rfl
  | object tag => by cases tag <;> rfl
  | vector elem => by simp [toJson, isExact_obj, isExact_toJson elem]
  | tuple elems => by
    simp only [toJson, isExact_obj, List.forall_mem_cons, isExact_str, isExact_arr, true_and]
    exact ⟨isExact_allToJson elems, by simp⟩
  | typeParam _ => rfl
  | unknown => rfl
where
  isExact_allToJson : (elems : List DataType) → ∀ j ∈ toJson.allToJson elems, j.isExact = true
    | [] => by simp [toJson.allToJson]
    | elem :: elems => by
      rw [toJson.allToJson, List.forall_mem_cons]
      exact ⟨isExact_toJson elem, isExact_allToJson elems⟩

end DataType

/-! ## Commands -/

/-- Counts are words. -/
def Command.IsSized : Command → Prop
  | splitCoins amounts => amounts ≤ Word.max64
  | mergeCoins sources _ => sources ≤ Word.max64
  | transferObjects objects _ => objects ≤ Word.max64
  | makeMoveVec _ elems _ => elems ≤ Word.max64
  | _ => True

instance : (c : Command) → Decidable c.IsSized
  | .splitCoins amounts => inferInstanceAs (Decidable (amounts ≤ Word.max64))
  | .mergeCoins sources _ => inferInstanceAs (Decidable (sources ≤ Word.max64))
  | .transferObjects objects _ => inferInstanceAs (Decidable (objects ≤ Word.max64))
  | .makeMoveVec _ elems _ => inferInstanceAs (Decidable (elems ≤ Word.max64))
  | .moveCall _ => inferInstanceAs (Decidable True)
  | .publish _ _ => inferInstanceAs (Decidable True)
  | .upgrade _ _ _ => inferInstanceAs (Decidable True)

theorem MoveCall.ofRecord?_fieldsToJson (c : MoveCall) :
    ofRecord? (.obj c.fieldsToJson) = some c := by
  simp [ofRecord?, fieldsToJson, fields?_obj, List.lookup_cons, string?, DataType.list?_toJson]

namespace Command

variable {c : Command}

theorem ofRecord?_fieldsToJson (h : c.IsSized) :
    ofRecord? (.obj c.fieldsToJson) c.kind = some c := by
  have hword {n : Nat} (hn : n ≤ Word.max64) : word64? (.nat n) = some n := natUpTo?_nat hn
  cases c with
  | moveCall call => simp [ofRecord?, kind, fieldsToJson, MoveCall.ofRecord?_fieldsToJson]
  | publish =>
    simp [ofRecord?, kind, fieldsToJson, fields?_obj, List.lookup_cons]
  | upgrade =>
    simp [ofRecord?, kind, fieldsToJson, fields?_obj, List.lookup_cons, string?]
  | _ =>
    simp [ofRecord?, kind, fieldsToJson, groupOf?, fields?_obj, List.lookup_cons, bool?, hword h,
      DataType.ofJson?_toJson]

theorem ofJson?_toJson (h : c.IsSized) (inner : Bool) : ofJson? inner c.toJson = some c := by
  have hkind : c.kind.name ∈ CommandKind.all.map CommandKind.name := by
    cases c.kind <;> decide
  have hname : CommandKind.ofName? c.kind.name = some c.kind := by
    cases c.kind <;> rfl
  have hkeys : "kind" ∉ c.fieldsToJson.map Prod.fst := by
    cases c <;> simp [fieldsToJson, MoveCall.fieldsToJson]
  rw [ofJson?, toJson, variant?_obj hkind hkeys]
  simp [hname, ofRecord?_fieldsToJson h]

theorem isExact_toJson (h : c.IsSized) : c.toJson.isExact = true := by
  cases c with
  | moveCall call =>
    simp [toJson, fieldsToJson, MoveCall.fieldsToJson, isExact_obj, isExact_arr,
      DataType.isExact_toJson]
  | publish => simp [toJson, fieldsToJson, isExact_obj]
  | upgrade => simp [toJson, fieldsToJson, isExact_obj]
  | _ => simp [toJson, fieldsToJson, isExact_obj, isExact_nat h, DataType.isExact_toJson]

end Command

/-! ## Nodes and edges -/

/-- Free-form data that is told apart from no data, and holds no double. -/
def Json.IsPlain (j : Json) : Prop :=
  j ≠ null ∧ j.isExact = true ∧ j.canonical = j

instance (j : Json) : Decidable j.IsPlain :=
  inferInstanceAs (Decidable (_ ∧ _))

namespace Node

def IsPlain : Node → Prop
  | var v => ∀ j ∈ v.value, j.IsPlain
  | command _ c => c.IsSized
  | _ => True

instance : (n : Node) → Decidable n.IsPlain
  | var v => inferInstanceAs (Decidable (∀ j ∈ v.value, j.IsPlain))
  | command _ c => inferInstanceAs (Decidable c.IsSized)
  | start _ => inferInstanceAs (Decidable True)
  | finish _ => inferInstanceAs (Decidable True)

theorem nullable_value {value : Option Json} (h : ∀ j ∈ value, j.IsPlain) :
    nullable valueOf? value = some value := by
  cases value with
  | none => rfl
  | some j =>
    obtain ⟨hnull, -, hcanonical⟩ := h j rfl
    rw [nullable_some _ hnull, valueOf?, hcanonical, Option.map_some]

theorem ofJson?_toJson {n : Node} (h : n.IsPlain) : ofJson? n.toJson = some n := by
  cases n with
  | start id => rfl
  | finish id => rfl
  | var v =>
    obtain ⟨id, name, type, value⟩ := v
    have hvalue : nullable valueOf? value = some value := nullable_value h
    have hread : ofJson? (toJson (.var ⟨id, name, type, value⟩)) =
        (DataType.ofJson? true type.toJson).bind fun type =>
          (nullable valueOf? value).bind fun value => some (.var ⟨id, name, type, value⟩) := by
      cases value <;> rfl
    rw [hread, DataType.ofJson?_toJson, hvalue]
    rfl
  | command id c =>
    show (Command.ofJson? true c.toJson).bind (fun c => some (command id c)) = _
    rw [Command.ofJson?_toJson h, Option.bind_some]

theorem isExact_toJson {n : Node} (h : n.IsPlain) : n.toJson.isExact = true := by
  cases n with
  | start id => simp [toJson, isExact_obj]
  | finish id => simp [toJson, isExact_obj]
  | var v =>
    obtain ⟨id, name, type, value⟩ := v
    cases value with
    | none => simp [toJson, Json.optional, isExact_obj, DataType.isExact_toJson]
    | some j => simp [toJson, Json.optional, isExact_obj, DataType.isExact_toJson, (h j rfl).2.1]
  | command id c => simp [toJson, isExact_obj, Command.isExact_toJson h]

end Node

namespace Edge

theorem ofJson?_toJson (e : Edge) : ofJson? e.toJson = some e := by
  obtain ⟨kind, id, source, sourceHandle, target, targetHandle⟩ := e
  cases kind with
  | flow => rfl
  | io cast =>
    cases cast with
    | none => rfl
    | some width => cases width <;> rfl

theorem isExact_toJson (e : Edge) : e.toJson.isExact = true := by
  have hcast (width : Width) : (castToJson width).isExact = true := rfl
  rw [toJson, fieldsToJson]
  cases e.cast? with
  | none => simp [Json.optional, isExact_obj]
  | some width => simp [Json.optional, isExact_obj, hcast]

end Edge

/-! ## Graphs -/

namespace Graph

def IsPlain (g : Graph) : Prop :=
  ∀ n ∈ g.nodes, n.IsPlain

instance (g : Graph) : Decidable g.IsPlain :=
  inferInstanceAs (Decidable (∀ n ∈ g.nodes, n.IsPlain))

theorem ofJson?_toJson {g : Graph} (h : g.IsPlain) : ofJson? g.toJson = some g := by
  have hnodes : list? Node.ofJson? (.arr (g.nodes.map Node.toJson)) = some g.nodes :=
    list?_map fun n hn => Node.ofJson?_toJson (h n hn)
  have hedges : list? Edge.ofJson? (.arr (g.edges.map Edge.toJson)) = some g.edges :=
    list?_map fun e _ => Edge.ofJson?_toJson e
  simp [ofJson?, toJson, fields?_obj, List.lookup_cons, hnodes, hedges]

theorem isExact_toJson {g : Graph} (h : g.IsPlain) : g.toJson.isExact = true := by
  have hnodes : ∀ n ∈ g.nodes, n.toJson.isExact = true := fun n hn => Node.isExact_toJson (h n hn)
  simpa [toJson, isExact_obj, isExact_arr, Edge.isExact_toJson] using hnodes

theorem fits_toJson (g : Graph) : Fits shape g.toJson := by
  refine fits_record fun m hm => ⟨.whole, ?_, .whole m.2⟩
  simp only [List.mem_cons, List.not_mem_nil, or_false] at hm
  rcases hm with rfl | rfl <;> rfl

end Graph

end TxGraph
