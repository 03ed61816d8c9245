import Mathlib.Data.List.Forall2
import TxGraph.Proofs.Address.Key
import TxGraph.Proofs.Directory
import TxGraph.Snapshot

/-!
# Looking up by address

A snapshot starts empty or is read, and then things are inserted (`SnapshotKind.Stored`). All
spellings of an address are looked up under its full form, so what they find is the last entry
under that key (`SnapshotKind.Stored.find_eq`). Insertion files ids under such keys, unless it has
to cut them; a snapshot that is read keeps its keys, and an entry under another spelling of the
address is not found.
-/

namespace TxGraph

/-! ## Histories of snapshots -/

/-- A kind of snapshot: its operations, which all work on one directory. -/
structure SnapshotKind (σ α : Type) where
  directory : σ → Directory α
  empty : σ
  read? : Json → Option σ
  value? : Json → Option α
  insert : σ → String → α → Except Address.Uncut σ
  find : σ → String → Except LookupError α
  missing : String → LookupError
  directory_empty : directory empty = []
  directory_read {j : Json} {s : σ} : read? j = some s → j.directory? value? = some (directory s)
  insert_eq {id key : String} (s : σ) (value : α) : Address.normalize id = .ok key →
    ∃ s', insert s id value = .ok s' ∧ directory s' = (directory s).insert key value
  find_eq {id key : String} (s : σ) : Address.normalize id = .ok key →
    find s id = ((directory s).get? key).elim (.error (missing id)) .ok

def SignatureSnapshot.kind : SnapshotKind SignatureSnapshot PackageSignatures where
  directory := packages
  empty := empty
  read? := ofJson?
  value? := PackageSignatures.ofJson?
  insert := insert
  find := package
  missing := .noPackage
  directory_empty := rfl
  directory_read h := by
    obtain ⟨d, hd, rfl⟩ := Option.map_eq_some_iff.mp h
    exact hd
  insert_eq s value h := ⟨_, by rw [insert, h]; rfl, rfl⟩
  find_eq s h := by
    rw [package, h]
    dsimp only
    cases s.packages.get? _ <;> rfl

def ObjectSnapshot.kind : SnapshotKind ObjectSnapshot String where
  directory := types
  empty := empty
  read? := ofJson?
  value? := Json.string?
  insert := insert
  find := typeOf
  missing := .noObject
  directory_empty := rfl
  directory_read h := by
    obtain ⟨d, hd, rfl⟩ := Option.map_eq_some_iff.mp h
    exact hd
  insert_eq s value h := ⟨_, by rw [insert, h]; rfl, rfl⟩
  find_eq s h := by
    rw [typeOf, h]
    dsimp only
    cases s.types.get? _ <;> rfl

namespace SnapshotKind

variable {σ α : Type} {kind : SnapshotKind σ α} {s : σ} {entries : List (String × α)}

/-- The entries that were stored one after the other, with the keys they are filed under: as
written if they were read, and normalized if they were inserted. -/
inductive Stored (kind : SnapshotKind σ α) : σ → List (String × α) → Prop
  | empty : Stored kind kind.empty []
  | read (members : List (String × Json)) {s : σ} {entries : List (String × α)} :
    kind.read? (.obj members) = some s →
    List.Forall₂ (fun m e => m.1 = e.1 ∧ kind.value? m.2 = some e.2) members entries →
    Stored kind s entries
  | insert {s s' : σ} {entries : List (String × α)} {id key : String} {value : α} :
    Stored kind s entries → Address.normalize id = .ok key → kind.insert s id value = .ok s' →
    Stored kind s' (entries ++ [(key, value)])

theorem directory?_obj_eq {value? : Json → Option α} {members : List (String × Json)}
    (h : List.Forall₂ (fun m e => m.1 = e.1 ∧ value? m.2 = some e.2) members entries) :
    (Json.obj members).directory? value? = some (Directory.ofEntries entries) := by
  have hmapM : members.mapM (fun m => do return (m.1, ← value? m.2)) = some entries := by
    induction h with
    | nil => rfl
    | cons hme _ ih =>
      rw [List.mapM_cons, ih, hme.1, hme.2]
      rfl
  rw [Json.directory?, hmapM]
  rfl

/-- A snapshot is the directory of what was stored. -/
theorem Stored.directory_eq (h : kind.Stored s entries) :
    kind.directory s = Directory.ofEntries entries := by
  induction h with
  | empty => exact kind.directory_empty
  | read _ hs hentries =>
    exact Option.some.inj ((kind.directory_read hs).symm.trans (directory?_obj_eq hentries))
  | @insert s s' entries id key value _ hkey hs ih =>
    obtain ⟨t, ht, hdirectory⟩ := kind.insert_eq s value hkey
    obtain rfl := Except.ok.inj (ht.symm.trans hs)
    rw [hdirectory, ih, Directory.ofEntries, Directory.ofEntries, List.foldl_append]
    rfl

variable {q : String} {bs : Bytes}

/-- Every spelling of an address finds the last entry under the full form. -/
theorem Stored.find_eq (h : kind.Stored s entries) (hq : Address.parse? q = some bs) :
    kind.find s q =
      (entries.reverse.lookup (Address.format bs)).elim (.error (kind.missing q)) .ok := by
  rw [kind.find_eq s (Address.normalize_of_parse? hq), h.directory_eq, Directory.get?_ofEntries]

/-- The last entry under any spelling of an address. -/
def lastUnder (bs : Bytes) (entries : List (String × α)) : Option (String × α) :=
  entries.reverse.find? fun e => Address.parse? e.1 = some bs

/-- Among the spellings the full form is one, so the last entry under any of them is the last under
the full form if it has that key. -/
theorem lookup_of_lastUnder (hbs : bs.length = 32) {e : String × α}
    (h : lastUnder bs entries = some e) (hkey : e.1 = Address.format bs) :
    entries.reverse.lookup (Address.format bs) = some e.2 := by
  unfold lastUnder at h
  generalize entries.reverse = stored at h ⊢
  induction stored with
  | nil => cases h
  | cons e' rest ih =>
    by_cases hfull : e'.1 = Address.format bs
    · rw [List.find?_cons_of_pos (by simp [hfull, Address.parse?_format hbs])] at h
      obtain rfl := Option.some.inj h
      rw [List.lookup_cons, beq_iff_eq.mpr hfull.symm]
    · rw [List.lookup_cons, beq_eq_false_iff_ne.mpr (Ne.symm hfull)]
      refine ih ?_
      by_cases hother : Address.parse? e'.1 = some bs
      · rw [List.find?_cons_of_pos (by simp [hother])] at h
        obtain rfl := Option.some.inj h
        exact absurd hkey hfull
      · rwa [List.find?_cons_of_neg (by simp [hother])] at h

/-- The last entry under an address is found if it is filed as ids are. -/
theorem Stored.find_lastUnder (h : kind.Stored s entries) (hq : Address.parse? q = some bs)
    {e : String × α} (he : lastUnder bs entries = some e) (hkey : Address.IsKey e.1) :
    kind.find s q = .ok e.2 := by
  have hparse : Address.parse? e.1 = some bs := by
    simpa using List.find?_some he
  rw [h.find_eq hq,
    lookup_of_lastUnder (Address.length_of_parse? hq) he (hkey.eq_format hparse)]
  rfl

/-- What is inserted under one spelling of an address is found under every other. -/
theorem exists_insert_find {id : String} (s : σ) (value : α) (hid : Address.parse? id = some bs)
    (hq : Address.parse? q = some bs) :
    ∃ s', kind.insert s id value = .ok s' ∧ kind.find s' q = .ok value := by
  obtain ⟨s', hs', hdirectory⟩ := kind.insert_eq s value (Address.normalize_of_parse? hid)
  refine ⟨s', hs', ?_⟩
  rw [kind.find_eq s' (Address.normalize_of_parse? hq), hdirectory, Directory.get?_insert,
    if_pos rfl]
  rfl

end SnapshotKind

/-! ## Both kinds -/

/-- Whatever was read and inserted, all spellings `q` of an address find the last entry filed under
its full form. That is the last entry under any spelling if this one is filed as insertion files an
id with no more digits than an address. -/
theorem lookups_by_address {q : String} {bs : Bytes} (hq : Address.parse? q = some bs) :
    (∀ s entries, SignatureSnapshot.kind.Stored s entries →
      s.package q =
        (entries.reverse.lookup (Address.format bs)).elim (.error (.noPackage q)) .ok ∧
      (∀ e, SnapshotKind.lastUnder bs entries = some e → Address.IsKey e.1 →
        s.package q = .ok e.2) ∧
      ∀ id value, Address.parse? id = some bs →
        ∃ s', s.insert id value = .ok s' ∧ s'.package q = .ok value) ∧
    ∀ s entries, ObjectSnapshot.kind.Stored s entries →
      s.typeOf q =
        (entries.reverse.lookup (Address.format bs)).elim (.error (.noObject q)) .ok ∧
      (∀ e, SnapshotKind.lastUnder bs entries = some e → Address.IsKey e.1 →
        s.typeOf q = .ok e.2) ∧
      ∀ id tag, Address.parse? id = some bs →
        ∃ s', s.insert id tag = .ok s' ∧ s'.typeOf q = .ok tag := by
  constructor
  · intro s entries h
    refine ⟨?_, fun e he hkey => ?_, fun id value hid => ?_⟩
    · simpa only [SignatureSnapshot.kind] using h.find_eq hq
    · simpa only [SignatureSnapshot.kind] using h.find_lastUnder hq he hkey
    · simpa only [SignatureSnapshot.kind] using
        SignatureSnapshot.kind.exists_insert_find s value hid hq
  · intro s entries h
    refine ⟨?_, fun e he hkey => ?_, fun id tag hid => ?_⟩
    · simpa only [ObjectSnapshot.kind] using h.find_eq hq
    · simpa only [ObjectSnapshot.kind] using h.find_lastUnder hq he hkey
    · simpa only [ObjectSnapshot.kind] using ObjectSnapshot.kind.exists_insert_find s tag hid hq

def addressTwo : Bytes :=
  List.replicate 31 0 ++ [2]

/-- The package two, by its short address, in a snapshot that was read. -/
def shortPackage : SignatureSnapshot :=
  ⟨[("0x2", .empty)]⟩

/-- The object two, first by its short address and then by its full one. -/
def objectTwice : List (String × String) :=
  [("0x2", "0x2::clock::Clock"), (Address.format addressTwo, "0x2::coin::Coin")]

theorem stored_shortPackage : SignatureSnapshot.kind.Stored shortPackage shortPackage.packages :=
  .read [("0x2", .obj [("modules", .obj [])])] rfl (.cons ⟨rfl, rfl⟩ .nil)

theorem stored_objectTwice :
    ObjectSnapshot.kind.Stored ⟨Directory.ofEntries objectTwice⟩ objectTwice := by
  have hentries : List.Forall₂ (fun m e => m.1 = e.1 ∧ Json.string? m.2 = some e.2)
      (objectTwice.map fun e => (e.1, Json.str e.2)) objectTwice :=
    .cons ⟨rfl, rfl⟩ (.cons ⟨rfl, rfl⟩ .nil)
  refine .read _ ?_ hentries
  simp only [ObjectSnapshot.kind, ObjectSnapshot.ofJson?]
  rw [SnapshotKind.directory?_obj_eq hentries, Option.map_some]

/-- The package that was read is not found, and is once it is inserted; of the objects the last one
is found, since it has the full address. -/
theorem lookups_by_address_two :
    Address.parse? " 0X2" = some addressTwo ∧
      shortPackage.package " 0X2" = .error (.noPackage " 0X2") ∧
      (∃ s, shortPackage.insert "0x02" .empty = .ok s ∧ s.package " 0X2" = .ok .empty) ∧
      SnapshotKind.lastUnder addressTwo objectTwice =
        some (Address.format addressTwo, "0x2::coin::Coin") ∧
      ObjectSnapshot.typeOf ⟨Directory.ofEntries objectTwice⟩ " 0X2" = .ok "0x2::coin::Coin" := by
  have hq : Address.parse? " 0X2" = some addressTwo := rfl
  have hshort := (lookups_by_address hq).1 _ _ stored_shortPackage
  have htwice := (lookups_by_address hq).2 _ _ stored_objectTwice
  have hlast : SnapshotKind.lastUnder addressTwo objectTwice =
      some (Address.format addressTwo, "0x2::coin::Coin") :=
    List.find?_cons_of_pos (by simp [Address.parse?_format (Address.length_of_parse? hq)])
  refine ⟨hq, hshort.1.trans ?_, hshort.2.2 _ _ rfl, hlast, ?_⟩
  · rfl
  · exact htwice.2.1 _ hlast (Address.isKey_format hq)

end TxGraph
