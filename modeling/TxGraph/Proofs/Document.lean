import TxGraph.Document.Json
import TxGraph.Program.OfGraph
import TxGraph.Proofs.Graph.Json
import TxGraph.Proofs.Json.Text

/-!
# Documents read back

A document is read back from its text if it is `IsPlain`: its version is known, it has no view,
whose numbers are doubles, its graph is plain, its directories are in order, and it is not nested
deeper than a reader goes.
-/

namespace TxGraph

open Json

/-! ## Signatures -/

theorem Signature.ofJson?_toJson {s : Signature} (h : s.typeParams ≤ Word.max64) :
    ofJson? s.toJson = some s := by
  have hword : word64? (.nat s.typeParams) = some s.typeParams := natUpTo?_nat h
  simp [ofJson?, toJson, fields?_obj, List.lookup_cons, hword]

theorem Signature.isExact_toJson {s : Signature} (h : s.typeParams ≤ Word.max64) :
    s.toJson.isExact = true := by
  simp [toJson, isExact_obj, isExact_nat h]

theorem Signature.fits_toJson (s : Signature) : Fits shape s.toJson := by
  refine fits_record fun m hm => ⟨.whole, ?_, .whole m.2⟩
  simp only [List.mem_cons, List.not_mem_nil, or_false] at hm
  rcases hm with rfl | rfl | rfl <;> rfl

namespace PackageSignatures

/-- Modules and functions are in order, and counts are words. -/
def IsSorted (p : PackageSignatures) : Prop :=
  p.modules.Sorted ∧ ∀ e ∈ p.modules, e.2.Sorted ∧ ∀ f ∈ e.2, f.2.typeParams ≤ Word.max64

instance (p : PackageSignatures) : Decidable p.IsSorted :=
  inferInstanceAs (Decidable (_ ∧ _))

def moduleToJson (functions : Directory Signature) : Json :=
  .obj (functions.map fun f => (f.1, f.2.toJson))

theorem toJson_eq (p : PackageSignatures) :
    p.toJson = .obj [("modules", .obj (p.modules.map fun e => (e.1, moduleToJson e.2)))] := rfl

theorem ofJson?_toJson {p : PackageSignatures} (h : p.IsSorted) : ofJson? p.toJson = some p := by
  have hmodules : directory? (directory? Signature.ofJson?)
      (.obj (p.modules.map fun e => (e.1, moduleToJson e.2))) = some p.modules :=
    directory?_obj (.refl _) h.1 fun e he =>
      directory?_obj (.refl _) (h.2 e he).1 fun f hf =>
        Signature.ofJson?_toJson ((h.2 e he).2 f hf)
  rw [toJson_eq, ofJson?]
  simp [fields?_obj, List.lookup_cons, hmodules]

theorem isExact_toJson {p : PackageSignatures} (h : p.IsSorted) : p.toJson.isExact = true := by
  have hmodule : ∀ e ∈ p.modules, (moduleToJson e.2).isExact = true := by
    intro e he
    rw [moduleToJson, isExact_obj, List.forall_mem_map]
    exact fun f hf => Signature.isExact_toJson ((h.2 e he).2 f hf)
  rw [toJson_eq, isExact_obj, List.forall_mem_singleton, isExact_obj, List.forall_mem_map]
  exact hmodule

theorem fits_toJson (p : PackageSignatures) : Fits shape p.toJson := by
  rw [toJson_eq]
  refine fits_record fun m hm => ?_
  obtain rfl := List.mem_singleton.mp hm
  refine ⟨_, rfl, .map ?_⟩
  rw [List.forall_mem_map]
  intro e _
  refine .map ?_
  rw [List.forall_mem_map]
  exact fun f _ => f.2.fits_toJson

end PackageSignatures

namespace SignatureSnapshot

def IsSorted (s : SignatureSnapshot) : Prop :=
  s.packages.Sorted ∧ ∀ e ∈ s.packages, e.2.IsSorted

instance (s : SignatureSnapshot) : Decidable s.IsSorted :=
  inferInstanceAs (Decidable (_ ∧ _))

theorem toJson_eq (s : SignatureSnapshot) :
    s.toJson = .obj (s.packages.map fun e => (e.1, e.2.toJson)) := rfl

theorem ofJson?_toJson {s : SignatureSnapshot} (h : s.IsSorted) : ofJson? s.toJson = some s := by
  have hpackages : directory? PackageSignatures.ofJson? s.toJson = some s.packages :=
    directory?_obj (.refl _) h.1 fun e he => PackageSignatures.ofJson?_toJson (h.2 e he)
  rw [ofJson?, hpackages, Option.map_some]

theorem isExact_toJson {s : SignatureSnapshot} (h : s.IsSorted) : s.toJson.isExact = true := by
  rw [toJson_eq, isExact_obj, List.forall_mem_map]
  exact fun e he => PackageSignatures.isExact_toJson (h.2 e he)

theorem fits_toJson (s : SignatureSnapshot) : Fits shape s.toJson := by
  rw [toJson_eq]
  refine .map ?_
  rw [List.forall_mem_map]
  exact fun e _ => e.2.fits_toJson

end SignatureSnapshot

namespace ObjectSnapshot

theorem ofJson?_toJson {s : ObjectSnapshot} {entries : List (String × String)}
    (hentries : entries.Perm s.types) (h : s.types.Sorted) :
    ofJson? (toJson ⟨entries⟩) = some s := by
  have htypes : directory? string? (toJson ⟨entries⟩) = some s.types :=
    directory?_obj hentries h fun _ _ => rfl
  rw [ofJson?, htypes, Option.map_some]

theorem within_toJson (s : ObjectSnapshot) (n : Nat) : Within (n + 1) s.toJson := by
  rw [toJson, within_obj, List.forall_mem_map]
  exact fun e _ => within_str e.2

end ObjectSnapshot

/-! ## Documents -/

namespace Document

variable {d : Document}

/-- A document that is read back as it is. Its directories are sorted, as all that come from
insertions or from reading are: each is the one sorted list of its entries. -/
structure IsPlain (d : Document) : Prop where
  version_le : d.version ≤ currentVersion
  view_eq : d.view = none
  graph : d.graph.IsPlain
  signatures : ∀ s ∈ d.signatures, s.IsSorted
  objects : ∀ s ∈ d.objects, s.types.Sorted
  depth_le : d.toJson.depth ≤ maxDepth

instance (d : Document) : Decidable d.IsPlain :=
  decidable_of_iff (d.version ≤ currentVersion ∧ d.view = none ∧ d.graph.IsPlain ∧
      (∀ s ∈ d.signatures, s.IsSorted) ∧ (∀ s ∈ d.objects, s.types.Sorted) ∧
      d.toJson.depth ≤ maxDepth)
    ⟨fun h => ⟨h.1, h.2.1, h.2.2.1, h.2.2.2.1, h.2.2.2.2.1, h.2.2.2.2.2⟩,
      fun h => ⟨h.1, h.2, h.3, h.4, h.5, h.6⟩⟩

def keys : List String :=
  ["version", "chain", "sender", "graph", "view", "signatures", "objects"]

theorem keys_toJson (d : Document) : (d.toJson.members.map Prod.fst).Sublist keys := by
  simp only [toJson, members, List.map_append]
  exact ((((List.Sublist.refl ["version", "chain"]).append (keys_optional _ _ _)).append
    (.refl ["graph"])).append (keys_optional _ _ _)).append (keys_optional _ _ _) |>.append
      (keys_optional _ _ _)

/-- The document with the entries of its objects as they are listed. No order of them is part of
the document, and its text may have any. -/
def relist (d : Document) (entries : List (String × String)) : Document :=
  { d with objects := d.objects.map fun _ => ⟨entries⟩ }

variable {entries : List (String × String)}

theorem ofJson?_toJson (h : d.IsPlain) (hentries : ∀ s ∈ d.objects, entries.Perm s.types) :
    ofJson? (d.relist entries).toJson = some d := by
  have hversion : word32? (.nat d.version.toNat) = some d.version.toNat :=
    natUpTo?_nat (Nat.le_of_lt_succ d.version.toNat_lt)
  have hsender : nullable string? (d.sender.map .str) = some d.sender :=
    nullable_map (fun _ _ => rfl) (by simp)
  have hview : nullable Viewport.ofJson? (d.view.map Viewport.toJson) = some d.view := by
    rw [h.view_eq]
    rfl
  have hsignatures : nullable SignatureSnapshot.ofJson?
      (d.signatures.map SignatureSnapshot.toJson) = some d.signatures :=
    nullable_map (fun s hs => s.ofJson?_toJson (h.signatures s hs))
      (by simp [SignatureSnapshot.toJson])
  have hobjects : nullable ObjectSnapshot.ofJson?
      (d.objects.map (ObjectSnapshot.toJson ∘ fun _ => ⟨entries⟩)) = some d.objects :=
    nullable_map (fun s hs => ObjectSnapshot.ofJson?_toJson (hentries s hs) (h.objects s hs))
      (by simp [ObjectSnapshot.toJson])
  have hfields : fields? keys (d.relist entries).toJson =
      some (keys.map fun key => (d.relist entries).toJson.members.lookup key) :=
    fields?_obj ((keys_toJson _).nodup (by decide)) keys
  rw [keys] at hfields
  rw [ofJson?, hfields]
  simp [toJson, members, lookup_optional, List.lookup_append, List.lookup_cons, string?, relist,
    hversion, hsender, hview, hsignatures, hobjects, Graph.ofJson?_toJson h.graph]

/-- What holds of each field's own member holds of all members. -/
theorem forall_mem_toJson {p : String × Json → Prop}
    (hversion : p ("version", .nat d.version.toNat)) (hchain : p ("chain", .str d.chain))
    (hsender : ∀ s ∈ d.sender, p ("sender", .str s)) (hgraph : p ("graph", d.graph.toJson))
    (hview : ∀ v ∈ d.view, p ("view", v.toJson))
    (hsignatures : ∀ s ∈ d.signatures, p ("signatures", s.toJson))
    (hobjects : ∀ s ∈ d.objects, p ("objects", s.toJson)) : ∀ m ∈ d.toJson.members, p m := by
  simp only [toJson, members, List.forall_mem_append, List.forall_mem_cons]
  exact ⟨⟨⟨⟨⟨⟨hversion, hchain, by simp⟩, forall_mem_optional hsender⟩, hgraph, by simp⟩,
    forall_mem_optional hview⟩, forall_mem_optional hsignatures⟩, forall_mem_optional hobjects⟩

/-- The entries of objects are texts, so listing them differently nests nothing deeper. -/
theorem within_toJson (h : d.IsPlain) (entries : List (String × String)) :
    Within maxDepth (d.relist entries).toJson := by
  have hdepth : ∀ m ∈ d.toJson.members, m.2.depth ≤ 126 := depth_obj_le.mp h.depth_le
  have hword : d.version.toNat ≤ Word.max64 :=
    Nat.le_trans (Nat.le_of_lt d.version.toNat_lt) (by decide)
  refine within_obj.mpr (forall_mem_toJson (within_nat hword) (within_str _)
    (fun s _ => within_str s) ⟨Graph.isExact_toJson h.graph, ?_⟩ ?_ (fun s hs => ?_)
    fun s _ => s.within_toJson 125)
  · exact hdepth ("graph", d.graph.toJson) (by simp [toJson, members])
  · simp [relist, h.view_eq]
  · have hmem : d.signatures = some s := hs
    refine ⟨SignatureSnapshot.isExact_toJson (h.signatures s hs), ?_⟩
    exact hdepth ("signatures", s.toJson) (by simp [toJson, members, Json.optional, hmem])

theorem fits_toJson (d : Document) (h : d.view = none) : Fits shape d.toJson := by
  refine fits_record (forall_mem_toJson ⟨_, rfl, .whole _⟩ ⟨_, rfl, .whole _⟩
    (fun s _ => ⟨_, rfl, .whole _⟩) ⟨_, rfl, d.graph.fits_toJson⟩ ?_
    (fun s _ => ⟨_, rfl, s.fits_toJson⟩) fun s _ => ⟨_, rfl, .whole _⟩)
  simp [h]

/-- A plain document is read back from its text, in whatever order the text has the entries of its
objects, so its graph compiles as before. -/
theorem ofText_toText {d : Document} (h : d.IsPlain) {entries : List (String × String)}
    (hentries : ∀ s ∈ d.objects, entries.Perm s.types) :
    ofText (d.relist entries).toText = .ok d ∧ ∀ reserved,
      (ofText (d.relist entries).toText).map (fun opened => opened.graph.compile reserved) =
        .ok (d.graph.compile reserved) := by
  have hread : ofText (d.relist entries).toText = .ok d := by
    rw [ofText, toText, parseAs?_pretty (within_toJson h entries) (fits_toJson _ h.view_eq),
      Option.bind_some, ofJson?_toJson h hentries]
    exact if_neg (UInt32.not_lt.mpr h.version_le)
  refine ⟨hread, fun reserved => ?_⟩
  rw [hread]
  rfl

/-- A split by an amount that is narrowed on its way, with a snapshot of signatures and one of
objects, and a variable that holds nested data. -/
def pocketMoney : Document where
  version := 1
  chain := "sui:\"test\"\n"
  sender := some "0xa"
  view := none
  graph := {
    nodes := [.start "s", .var ⟨"x", "amount", .number, some (.nat 7)⟩,
      .var ⟨"y", "rest", .vector (.tuple [.object none, .unknown]),
        some (.obj [("a", .arr [.null, .str "é"]), ("b", .int (-1))])⟩,
      .command "c" (.splitCoins 1), .finish "e"]
    edges := [.flow "s" "c", .io "x" "value" "c" "in_amount_0" (some .u64), .flow "c" "e"] }
  signatures := some ⟨[("0x2", ⟨[("coin", [("split", ⟨1, ["u64"], []⟩)])]⟩)]⟩
  objects := some ⟨[("0x5", "0x2::clock::Clock"), ("0xb", "0x2::coin::Coin")]⟩

theorem ofText_toText_pocketMoney :
    pocketMoney.IsPlain ∧ ofText pocketMoney.toText = .ok pocketMoney ∧
    ofText (pocketMoney.relist [("0xb", "0x2::coin::Coin"), ("0x5", "0x2::clock::Clock")]).toText =
      .ok pocketMoney := by
  have hplain : pocketMoney.IsPlain := by decide
  refine ⟨hplain, (ofText_toText hplain (fun s hs => ?_)).1, (ofText_toText hplain fun s hs => ?_).1⟩
  · cases hs
    exact .refl _
  · cases hs
    exact .swap _ _ []

end Document

end TxGraph
