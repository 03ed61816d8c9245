import TxGraph.Proofs.Decoding.Ports

/-!
# Decoding draws a plan

Each function of the decoder adds the nodes and edges that the drawing of a command has, and arguments
that refer to earlier values get the ports they ask for. So decoding draws a plan, with no drawing for
a command that cannot be shown.
-/

namespace TxGraph.Decoding

variable {α β : Type}

/-! ## States -/

def State.HasError (s : State) : Prop :=
  ∃ g ∈ s.diagnostics.toList, g.severity = .error

/-- A source reads the ids that can be normalized, and has the same for all spellings of a
package. -/
structure Uniform (source : SignatureSource) : Prop where
  reads {package key : String} {cause : Address.Uncut} : Address.normalize package = .ok key →
    source package ≠ .error (.uncut cause)
  same {package other key : String} : Address.normalize package = .ok key →
    Address.normalize other = .ok key → (source package).toOption = (source other).toOption

/-- What is kept of a package is what the source has for some spelling of it. -/
def Cached (source : SignatureSource) (packages : Directory (Option PackageSignatures)) : Prop :=
  ∀ key found, Directory.get? packages key = some found →
    ∃ package, Address.normalize package = .ok key ∧ found = (source package).toOption

/-- An argument does not get the port it asks for. -/
def Finding.isDetour : Finding → Bool
  | .noFreePort _ => true
  | .rerouted .. => true
  | _ => false

/-- All arguments got the ports they ask for, as far as they refer to a value. -/
def State.Direct (s : State) : Prop :=
  ∀ g ∈ s.diagnostics.toList, Finding.isDetour g.finding = false

/-- The second state has more nodes and edges. -/
structure Extends (s : State) (nodes : List Node) (edges : List Edge) (s' : State) : Prop where
  nodes : s'.nodes.toList = s.nodes.toList ++ nodes
  edges : s'.edges.toList = s.edges.toList ++ edges
  errors : s.HasError → s'.HasError
  direct : s.Direct → s'.Direct

structure Grows (source : SignatureSource) (s : State) (nodes : List Node) (edges : List Edge)
    (s' : State) : Prop extends Extends s nodes edges s' where
  producers : s'.producers = s.producers
  cached : Cached source s.packages → Cached source s'.packages

structure Adds (s : State) (nodes : List Node) (edges : List Edge) (s' : State) : Prop
    extends Extends s nodes edges s' where
  producers : s'.producers = s.producers
  packages : s'.packages = s.packages

variable {source : SignatureSource} {s s' s'' : State} {nodes nodes' : List Node}
  {edges edges' : List Edge}
variable {ports : List Port} {n : Nat}

theorem Extends.refl (s : State) : Extends s [] [] s :=
  ⟨by simp, by simp, id, id⟩

theorem Extends.trans (h : Extends s nodes edges s') (h' : Extends s' nodes' edges' s'') :
    Extends s (nodes ++ nodes') (edges ++ edges') s'' where
  nodes := by rw [h'.nodes, h.nodes, List.append_assoc]
  edges := by rw [h'.edges, h.edges, List.append_assoc]
  errors := h'.errors ∘ h.errors
  direct := h'.direct ∘ h.direct

theorem Adds.refl (s : State) : Adds s [] [] s :=
  ⟨.refl s, rfl, rfl⟩

theorem Adds.trans (h : Adds s nodes edges s') (h' : Adds s' nodes' edges' s'') :
    Adds s (nodes ++ nodes') (edges ++ edges') s'' :=
  ⟨h.toExtends.trans h'.toExtends, h'.producers.trans h.producers, h'.packages.trans h.packages⟩

theorem Adds.grows (h : Adds s nodes edges s') (source : SignatureSource) :
    Grows source s nodes edges s' :=
  ⟨h.toExtends, h.producers, fun hcached => h.packages ▸ hcached⟩

theorem Grows.trans (h : Grows source s nodes edges s') (h' : Adds s' nodes' edges' s'') :
    Grows source s (nodes ++ nodes') (edges ++ edges') s'' :=
  ⟨h.toExtends.trans h'.toExtends, h'.producers.trans h.producers,
    fun hcached => h'.packages ▸ h.cached hcached⟩

theorem State.HasError.push {g : Diagnostic} (h : s.HasError) :
    ({ s with diagnostics := s.diagnostics.push g } : State).HasError := by
  obtain ⟨d, hd, herror⟩ := h
  exact ⟨d, by simp [hd], herror⟩

theorem State.Direct.push {g : Diagnostic} (h : s.Direct)
    (hg : Finding.isDetour g.finding = false) :
    ({ s with diagnostics := s.diagnostics.push g } : State).Direct := by
  intro d hd
  rcases List.mem_append.mp (Array.toList_push ▸ hd) with hd | hd
  · exact h d hd
  · rw [List.mem_singleton.mp hd]
    exact hg

theorem diagnose_adds (node : Option String) {finding : Finding}
    (hfinding : Finding.isDetour finding = false) :
    Does s (diagnose node finding) fun _ s' => Adds s [] [] s' ∧
      (finding.severity = .error → s'.HasError) := by
  refine .modify ⟨⟨⟨by simp, by simp, .push, fun h => h.push hfinding⟩, rfl, rfl⟩, fun herror => ?_⟩
  exact ⟨⟨finding, node⟩, by simp, herror⟩

theorem addNode_adds (n : Node) : Does s (addNode n) fun _ s' => Adds s [n] [] s' :=
  .modify ⟨⟨by simp, by simp, id, id⟩, rfl, rfl⟩

theorem addEdge_adds (e : Edge) : Does s (addEdge e) fun _ s' => Adds s [] [e] s' :=
  .modify ⟨⟨by simp, by simp, id, id⟩, rfl, rfl⟩

theorem feed_adds (v : Variable) (node port : String) :
    Does s (feed v node port) fun _ s' =>
      Adds s [.var v] [.io v.id Port.variableOut node port none] s' := by
  refine .bind (addNode_adds _) fun _ s₁ h₁ => ?_
  exact (addEdge_adds _).mono fun _ s₂ h₂ => h₁.trans h₂

/-! ## Wiring -/

theorem wire_adds {node : String} {free : List Port} {slot : ArgSlot} {port : Port}
    (hfree : (free.find? fun q => q.id == slot.port) = some port)
    (hport : (ports.find? fun q => q.id == slot.port) = some port) :
    Does s (wire node free slot) fun rest s' =>
      (rest = free ∨ rest = free.filter fun q => q.id != slot.port) ∧
      Adds s [] (edgeBy? s.producers.get? node ports slot).toList s' := by
  have hid : port.id = slot.port := by simpa using List.find?_some hfree
  refine .get_bind ?_
  cases hproducer : s.producers.get? slot.arg with
  | none =>
    have hedge : edgeBy? s.producers.get? node ports slot = none := by simp [edgeBy?, hproducer]
    rw [hedge]
    exact .bind (diagnose_adds _ rfl) fun _ s₁ h₁ => .pure ⟨.inl rfl, h₁.1⟩
  | some producer =>
    have hpick : slot.pick producer.type free = some port := by simp [ArgSlot.pick, hfree]
    have hedge : edgeBy? s.producers.get? node ports slot = some (.io producer.node producer.port
        node port.id (producer.type.castInto? port.typeOrUnknown)) := by
      simp [edgeBy?, hproducer, hport]
    simp only [hpick, hedge, hid, bne_self_eq_false, Bool.false_eq_true, if_false]
    split
    · refine .bind (diagnose_adds _ rfl) fun _ s₁ h₁ => ?_
      exact .bind (addEdge_adds _) fun _ s₂ h₂ => .pure ⟨.inr rfl, h₁.1.trans h₂⟩
    · exact .bind (addEdge_adds _) fun _ s₁ h₁ => .pure ⟨.inr rfl, h₁⟩

theorem find?_filter_ne {id other : String} (h : id ≠ other) :
    ((ports.filter fun q => q.id != other).find? fun q => q.id == id) =
      ports.find? fun q => q.id == id := by
  rw [List.find?_filter]
  congr 1
  funext q
  by_cases hq : q.id = id <;> simp [hq, h]

theorem wireAll_adds {lookup : TxArg → Option Producer} {node : String} {slots : List ArgSlot}
    (hports : (slots.map ArgSlot.port).Nodup) :
    ∀ {s : State} {free : List Port}, s.producers.get? = lookup →
    (∀ slot ∈ slots, ∃ port, (free.find? fun q => q.id == slot.port) = some port ∧
      (ports.find? fun q => q.id == slot.port) = some port) →
    Does s (wireAll node free slots) fun _ s' =>
      Adds s [] (slots.filterMap (edgeBy? lookup node ports)) s' := by
  induction slots with
  | nil => exact fun _ _ => .pure (.refl _)
  | cons slot rest ih =>
    intro s free hlookup hfree
    obtain ⟨hnew, hrest⟩ := List.nodup_cons.mp hports
    obtain ⟨⟨port, hfind, hport⟩, hfree⟩ := List.forall_mem_cons.mp hfree
    refine .bind (wire_adds hfind hport) fun left s₁ ⟨hleft, h₁⟩ => ?_
    refine (ih hrest (h₁.producers ▸ hlookup) fun other hother => ?_).mono fun _ s₂ h₂ => ?_
    · rcases hleft with rfl | rfl
      · exact hfree other hother
      · have hne : other.port ≠ slot.port :=
          fun heq => hnew (List.mem_map.mpr ⟨other, hother, heq⟩)
        rw [find?_filter_ne hne]
        exact hfree other hother
    · have h := h₁.trans h₂
      rw [hlookup] at h
      cases hedge : edgeBy? lookup node ports slot with
      | none =>
        rw [List.filterMap_cons_none hedge]
        rwa [hedge] at h
      | some e =>
        rw [List.filterMap_cons_some hedge]
        rwa [hedge] at h

theorem wireTypeArgs_adds (node : String) {args : List String} :
    ∀ {s : State} (index : Nat), Does s (wireTypeArgs node index args) fun _ s' =>
      Adds s ((args.mapIdx fun i arg => Node.var (typeArgVar node (index + i) arg)))
        (args.mapIdx fun i arg => .io (typeArgVar node (index + i) arg).id Port.variableOut node
          (Command.indexed Command.typeArgIn (index + i)) none) s' := by
  induction args with
  | nil => exact fun _ => .pure (.refl _)
  | cons arg rest ih =>
    intro s index
    refine .bind (feed_adds _ _ _) fun _ s₁ h₁ => (ih (index + 1)).mono fun _ s₂ h₂ => ?_
    simp only [List.mapIdx_cons, Nat.add_zero]
    simp only [Nat.add_right_comm index 1, ← Nat.add_assoc] at h₂ ⊢
    exact h₁.trans h₂

/-! ## Vectors -/

theorem pack_adds (c : Context) (node : String) (elem : DataType)
    (elems : List TxArg) :
    Does s (pack c node elem elems) fun packed s' =>
      match elems.mapM (c.element? elem) with
      | none => packed = false ∧ s' = s
      | some sources => packed = true ∧
        Adds s [.var (elemsVar node elem (sources.map Prod.snd))]
          [.io (elemsVar node elem (sources.map Prod.snd)).id Port.variableOut node
            Command.elemsIn none] s' := by
  unfold pack
  cases elems.mapM (c.element? elem) with
  | none => exact .pure ⟨rfl, rfl⟩
  | some sources =>
    refine .bind (diagnose_adds _ rfl) fun _ s₁ ⟨h₁, _⟩ => ?_
    refine .bind (feed_adds _ _ _) fun _ s₂ h₂ => ?_
    have h := h₁.trans h₂
    exact .modify_bind (.pure ⟨rfl, ⟨h.nodes, h.edges, h.errors, h.direct⟩, h.producers, h.packages⟩)

theorem vectorSlots_adds (c : Context) (node : String) (elem : DataType)
    (elems : List TxArg) :
    Does s (vectorSlots c node elem elems) fun slots s' =>
      slots = (drawVector c node elem elems).slots ∧
      Adds s (drawVector c node elem elems).vars
        ((drawVector c node elem elems).feedEdges node) s' ∧
      (elem.isVector = true → elems.mapM (c.element? elem) = none → 1 < elems.length →
        s'.HasError) := by
  unfold vectorSlots drawVector
  cases hvector : elem.isVector with
  | false => exact .pure ⟨rfl, .refl s, nofun⟩
  | true =>
    simp only [Bool.not_true, Bool.false_eq_true, if_false, if_true]
    refine .bind (pack_adds c node elem elems) fun packed s₁ h₁ => ?_
    cases hpacked : elems.mapM (c.element? elem) with
    | some sources =>
      rw [hpacked] at h₁
      obtain ⟨rfl, h₁⟩ := h₁
      exact .pure ⟨rfl, h₁, nofun⟩
    | none =>
      rw [hpacked] at h₁
      obtain ⟨rfl, rfl⟩ := h₁
      simp only [Bool.false_eq_true, if_false]
      by_cases hmany : 1 < elems.length
      · rw [if_pos hmany]
        refine .bind (diagnose_adds _ rfl) fun _ s₂ ⟨h₂, herror⟩ => .pure ⟨rfl, h₂, ?_⟩
        exact fun _ _ _ => herror rfl
      · rw [if_neg hmany]
        exact .pure ⟨rfl, .refl s₁, fun _ _ h => absurd h hmany⟩

/-! ## Calls -/

/-- A package cannot be asked for: its id cannot be cut to length, by the decoder or by the source. -/
def Unreadable (source : SignatureSource) (package : String) (cause : Address.Uncut) : Prop :=
  Address.normalize package = .error cause ∨ source package = .error (.uncut cause)

/-- The signatures of a package are those that the source has for it in this or an earlier spelling. -/
theorem packageSignatures_grows (c : Context) (hcached : Cached c.source s.packages)
    (node package : String) :
    Ensures (Unreadable c.source package) s (packageSignatures c node package) fun found s' =>
      Grows c.source s [] [] s' ∧
      ∃ other, Respells package other ∧ found = (c.source other).toOption := by
  refine .bind (.lift fun _ => .inl) fun key s₁ ⟨hkey, hsame⟩ => ?_
  rw [hsame]
  refine .get_bind ?_
  cases hfound : Directory.get? s.packages key with
  | some found =>
    obtain ⟨other, hother, hanswer⟩ := hcached key found hfound
    exact .pure ⟨(Adds.refl s).grows _, other, .inr ⟨key, hkey, hother⟩, hanswer⟩
  | none =>
    -- what is entered answers for all spellings of the package
    have hlast {s₁ : State} (h₁ : Adds s [] [] s₁) {found : Option PackageSignatures}
        (hfound : found = (c.source package).toOption) : Ensures (Unreadable c.source package) s₁ (do
          modify fun s => { s with packages := Directory.insert key found s.packages }
          return found : DecodeM (Option PackageSignatures)) fun found s' =>
          Grows c.source s [] [] s' ∧
          ∃ other, Respells package other ∧ found = (c.source other).toOption := by
      refine .modify_bind (.pure ⟨⟨⟨h₁.nodes, h₁.edges, h₁.errors, h₁.direct⟩, h₁.producers, ?_⟩,
        package, .inl rfl, hfound⟩)
      intro hcached otherKey kept hget
      rw [Directory.get?_insert] at hget
      split at hget
      case isTrue heq =>
        subst heq
        cases hget
        exact ⟨package, hkey, hfound⟩
      case isFalse =>
        rw [h₁.packages] at hget
        exact hcached otherKey kept hget
    cases hsource : c.source package with
    | ok signatures => exact hlast (.refl s) (by rw [hsource]; rfl)
    | error cause =>
      cases cause with
      | uncut cause => exact .throw (.inr hsource)
      | _ =>
        exact .bind (diagnose_adds _ rfl).ensures fun _ s₁ h₁ =>
          hlast h₁.1 (by rw [hsource]; rfl)

/-- A call is shown by what the source has. -/
theorem decodeCall_grows (c : Context) (hcached : Cached c.source s.packages) (k : Nat)
    (package module function : String) (typeArgs : List String) (args : List TxArg) :
    Ensures (Unreadable c.source package) s
      (decodeCall c (commandId k) (UInt16.ofNat k) package module function typeArgs.length
        args.length) fun call s' =>
      Grows c.source s [] [] s' ∧
      Answered c k (.moveCall package module function typeArgs args) (.moveCall call) := by
  refine .bind (packageSignatures_grows c hcached _ package)
    fun found s₁ ⟨h₁, other, hother, hfound⟩ => ?_
  have hanswered {call : MoveCall} (hcall : callBy found package module function = call) :
      Answered c k (.moveCall package module function typeArgs args)
        (.moveCall (widen call typeArgs.length args.length (c.arity (UInt16.ofNat k)))) :=
    ⟨other, hother, by rw [← hcall, hfound]⟩
  cases hsignature : found.bind fun s => s.function? module function with
  | none =>
    refine .bind (diagnose_adds _ rfl).ensures fun _ s₂ h₂ => .pure ⟨h₁.trans h₂.1, hanswered ?_⟩
    rw [callBy, hsignature]
    rfl
  | some signature =>
    have hcall : callBy found package module function =
        (MoveCall.of package module function).withSignature signature := by
      rw [callBy, hsignature]
      rfl
    dsimp only
    split
    · exact .bind (diagnose_adds _ rfl).ensures fun _ s₂ h₂ =>
        .pure ⟨h₁.trans h₂.1, hanswered hcall⟩
    · exact .pure ⟨h₁, hanswered hcall⟩

/-! ## Commands -/

theorem map_mapIdx {γ : Type} (f : Nat → α → β) (g : β → γ) (xs : List α) :
    (xs.mapIdx f).map g = xs.mapIdx fun i x => g (f i x) :=
  List.ext_getElem? fun n => by simp [Function.comp_def]

def Blocks (source : SignatureSource) (cause : Address.Uncut) : TxCommand → Prop
  | .moveCall package .. => Unreadable source package cause
  | _ => False

/-- What is drawn for the command with number `k` before its node. -/
inductive Shaped (c : Context) (k : Nat) (command : TxCommand) (s : State) :
    Option (Command × List ArgSlot) → State → Prop
  | skip {s' : State} (hcommand : command = .unsupported) (h : Adds s [] [] s') :
    Shaped c k command s none s'
  | shown {s' : State} {d : Drawing} (hdepicts : Depicts c k command d)
    (h : Grows c.source s d.vars (d.feedEdges (commandId k)) s')
    (hdrops : Drops c command → s'.HasError) :
    Shaped c k command s (some (d.command, d.slots)) s'

theorem decodeShape_shaped (c : Context) (hcached : Cached c.source s.packages) (k : Nat)
    (command : TxCommand) :
    Ensures (fun cause => Blocks c.source cause command) s
      (decodeShape c (commandId k) k command) fun shape s' => Shaped c k command s shape s' := by
  cases command with
  | unsupported => exact .bind (diagnose_adds _ rfl).ensures fun _ s₁ h₁ => .pure (.skip rfl h₁.1)
  | makeMoveVec elem elems =>
    refine .bind (vectorSlots_adds c _ _ elems).ensures fun slots s₁ ⟨hslots, h₁, herror⟩ => ?_
    subst hslots
    rw [← command_drawVector c (commandId k)]
    refine .pure (.shown ⟨rfl, trivial⟩ (h₁.grows _) ?_)
    cases elem with
    | none => exact False.elim
    | some spelling => exact fun ⟨hvector, hnone, hmany⟩ => herror hvector hnone hmany
  | moveCall package module function typeArgs args =>
    refine .bind (decodeCall_grows c hcached k package module function typeArgs args)
      fun call s₁ ⟨h₁, hanswered⟩ => ?_
    refine .bind (wireTypeArgs_adds (commandId k) 0).ensures fun _ s₂ h₂ => ?_
    refine .pure (.shown (d := drawCall k typeArgs args call) ⟨⟨call, rfl⟩, hanswered⟩ ?_ nofun)
    have h := h₁.trans h₂
    simp only [List.nil_append, Nat.zero_add] at h
    simpa only [Drawing.vars, Drawing.feedEdges, drawCall, map_mapIdx] using h
  | _ =>
    exact .pure (.shown (d := ⟨[], _, _⟩) ⟨rfl, trivial⟩ ((Adds.refl s).grows _) False.elim)

theorem register_enters :
    ∀ {s : State} {nth : Nat}, Does s (register (commandId n) (UInt16.ofNat n) nth ports) fun _ s' =>
      (∃ table, s' = { s with producers := table }) ∧
      ∀ ledger, Records ledger s.producers → Records (ledger ++ ports.mapIdx fun m port =>
        (.output n (nth + m), producerOf (commandId n) port)) s'.producers := by
  induction ports with
  | nil => exact .pure ⟨⟨_, rfl⟩, fun ledger h => by rwa [List.mapIdx_nil, List.append_nil]⟩
  | cons port rest ih =>
    intro s nth
    refine .modify_bind (ih.mono fun _ s' ⟨⟨table, hs'⟩, hrest⟩ => ⟨⟨table, hs'⟩, fun ledger h => ?_⟩)
    have hnext := hrest _ (h.output n nth (producerOf (commandId n) port))
    rw [List.append_assoc] at hnext
    rw [List.mapIdx_cons]
    simp only [Nat.add_assoc, Nat.add_comm 1] at hnext ⊢
    exact hnext

inductive Decodes (c : Context) (k : Nat) (command : TxCommand) (s : State) :
    Option String → State → Prop
  | skip {s' : State} (hcommand : command = .unsupported) (h : Adds s [] [] s') :
    Decodes c k command s none s'
  | shown {s' : State} {d : Drawing} (hdepicts : Depicts c k command d)
    (h : Extends s (d.nodes k) (d.edgesBy s.producers.get? k) s')
    (hrecords : ∀ ledger, Records ledger s.producers → Records (ledger ++ d.outputs k) s'.producers)
    (hcached : Cached c.source s'.packages) (hdrops : Drops c command → s'.HasError) :
    Decodes c k command s (some (commandId k)) s'

theorem decodeCommand_decodes (c : Context) (hcached : Cached c.source s.packages) (k : Nat)
    (command : TxCommand) :
    Ensures (fun cause => Blocks c.source cause command) s (decodeCommand c k command)
      fun node s' => Decodes c k command s node s' := by
  refine .bind (decodeShape_shaped c hcached k command) fun shape s₁ h₁ => ?_
  cases h₁ with
  | skip hcommand h => exact .pure (.skip hcommand h)
  | @shown s₁ d hdepicts h₁ hdrops =>
    refine .bind (addNode_adds _).ensures fun _ s₂ h₂ => ?_
    have hports : ∀ slot ∈ d.slots, ∃ port,
        (d.command.inputPorts.find? fun q => q.id == slot.port) = some port ∧
        (d.command.inputPorts.find? fun q => q.id == slot.port) = some port := by
      intro slot hslot
      obtain ⟨port, hport⟩ := find?_of_mem_map (subset_inputPorts hdepicts (List.mem_map_of_mem hslot))
      exact ⟨port, hport, hport⟩
    have hproducers : s₂.producers = s.producers := h₂.producers.trans h₁.producers
    refine .bind (wireAll_adds (List.nodup_append.mp (nodup_ports hdepicts.outlines)).2.1
      (congrArg ProducerTable.get? hproducers) hports).ensures fun _ s₃ h₃ => ?_
    have h := (h₁.trans h₂).trans h₃
    refine .bind register_enters.ensures fun _ s₄ ⟨⟨table, h₄⟩, hrecords⟩ => ?_
    subst h₄
    refine .pure (.shown hdepicts ⟨?_, ?_, h.errors, h.direct⟩ (fun ledger hledger => ?_)
      (h.cached hcached) ?_)
    · simpa [Drawing.nodes] using h.nodes
    · simpa [Drawing.edgesBy] using h.edges
    · simpa [Drawing.outputs] using hrecords ledger (h.producers ▸ hledger)
    · exact fun hdropped => h₃.errors (h₂.errors (hdrops hdropped))

/-- **Decoding commands adds the drawings of a plan, one after the other.** -/
theorem decodeCommands_plans (c : Context) {commands : List TxCommand} :
    ∀ {s : State} {k : Nat} {previous : String} {ledger : List (Value × Producer)},
    Records ledger s.producers → Cached c.source s.packages →
    Ensures (fun cause => ∃ command ∈ commands, Blocks c.source cause command) s
      (decodeCommands c k previous commands) fun _ s' => ∃ plan, Plans c k commands plan ∧
        Extends s (plan.nodes k) (plan.edges ledger k previous) s' ∧
        ((∃ command ∈ commands, Drops c command) → s'.HasError) := by
  induction commands with
  | nil =>
    intro s k previous ledger _ _
    refine (addEdge_adds _).ensures.mono fun _ s' h => ⟨[], .nil k, h.toExtends, ?_⟩
    rintro ⟨_, hmem, -⟩
    cases hmem
  | cons command rest ih =>
    intro s k previous ledger hledger hcached
    have hfirst : Ensures (fun cause => ∃ found ∈ command :: rest, Blocks c.source cause found) s
        (decodeCommand c k command) fun node s' => Decodes c k command s node s' :=
      (decodeCommand_decodes c hcached k command).mono_error fun _ h => ⟨_, List.mem_cons_self, h⟩
    have hrest {s₁ : State} {previous : String} {ledger : List (Value × Producer)}
        (h : Records ledger s₁.producers) (hcached : Cached c.source s₁.packages) :
        Ensures (fun cause => ∃ found ∈ command :: rest, Blocks c.source cause found) s₁
          (decodeCommands c (k + 1) previous rest) _ :=
      (ih h hcached).mono_error fun _ ⟨found, hfound, h⟩ => ⟨found, List.mem_cons_of_mem _ hfound, h⟩
    refine .bind hfirst fun node s₁ h₁ => ?_
    cases h₁ with
    | skip hcommand h₁ =>
      subst hcommand
      refine (hrest (h₁.producers ▸ hledger) (h₁.packages ▸ hcached)).mono
        fun _ s₂ ⟨plan, hplans, h₂, herrors⟩ =>
          ⟨none :: plan, .skip hplans, h₁.toExtends.trans h₂, ?_⟩
      rintro ⟨found, hmem, hdrops⟩
      rcases List.mem_cons.mp hmem with rfl | hmem
      · exact hdrops.elim
      · exact herrors ⟨found, hmem, hdrops⟩
    | @shown _ d hdepicts h₁ hrecords hcached hdrops =>
      refine .bind (addEdge_adds _).ensures fun _ s₂ h₂ => ?_
      refine (hrest (h₂.producers ▸ hrecords ledger hledger) (h₂.packages ▸ hcached)).mono
        fun _ s₃ ⟨plan, hplans, h₃, herrors⟩ => ⟨some d :: plan, .cons hdepicts hplans, ?_, ?_⟩
      · have h := (h₁.trans h₂.toExtends).trans h₃
        rw [hledger.get?_eq] at h
        simpa [Plan.nodes, Plan.edges] using h
      · rintro ⟨found, hmem, hdropped⟩
        rcases List.mem_cons.mp hmem with rfl | hmem
        · exact h₃.errors (h₂.errors (hdrops hdropped))
        · exact herrors ⟨found, hmem, hdropped⟩

/-! ### Uniform sources -/

theorem Depicts.draw?_eq {c : Context} {k : Nat} {command : TxCommand} {d : Drawing}
    (h : Depicts c k command d) (huniform : Uniform c.source) : draw? c k command = some d := by
  obtain ⟨houtlines, hanswered⟩ := h
  cases command with
  | moveCall package module function typeArgs args =>
    obtain ⟨call, rfl⟩ := houtlines
    obtain ⟨other, hother, rfl⟩ := hanswered
    have hsame : (c.source package).toOption = (c.source other).toOption := by
      rcases hother with rfl | ⟨key, hpackage, hother⟩
      · rfl
      · exact huniform.same hpackage hother
    rw [draw?, shownCall, callOf_eq, hsame]
  | _ => exact houtlines

/-- If the source has the same for all spellings of a package, calls are shown by what it has. -/
theorem Plans.eq_mapIdx {c : Context} {k : Nat} {commands : List TxCommand} {plan : Plan}
    (h : Plans c k commands plan) (huniform : Uniform c.source) :
    plan = commands.mapIdx fun j command => draw? c (k + j) command := by
  have hshift (rest : List TxCommand) (k : Nat) :
      (rest.mapIdx fun j command => draw? c (k + (j + 1)) command) =
        rest.mapIdx fun j command => draw? c (k + 1 + j) command := by
    simp only [Nat.add_assoc, Nat.add_comm 1]
  induction h with
  | nil => rfl
  | skip _ ih =>
    rw [List.mapIdx_cons, hshift, ← ih]
    rfl
  | cons head _ ih =>
    rw [List.mapIdx_cons, hshift, ← ih, Nat.add_zero, head.draw?_eq huniform]

/-! ## Inputs -/

theorem inputVariable_spec {index : Nat} {x : TxInput} {v : Variable} {finding : Option Finding}
    (h : inputVariable index x = .ok (v, finding)) :
    v.id = inputId index ∧ ∀ f ∈ finding, Finding.isDetour f = false := by
  cases x with
  | object id =>
    obtain ⟨address, -, h⟩ := bind_eq_ok.mp h
    cases h
    exact ⟨rfl, nofun⟩
  | pure type bytes =>
    cases h
    refine ⟨rfl, fun f hf => ?_⟩
    split at hf
    · cases hf
      rfl
    · split at hf <;> cases hf
      rfl

inductive VarsOf : Nat → List TxInput → List Variable → Prop
  | nil (index : Nat) : VarsOf index [] []
  | cons {index : Nat} {x : TxInput} {v : Variable} {finding : Option Finding}
    {inputs : List TxInput} {vs : List Variable} (head : inputVariable index x = .ok (v, finding))
    (tail : VarsOf (index + 1) inputs vs) : VarsOf index (x :: inputs) (v :: vs)

structure Enters (index : Nat) (vs : List Variable) (s s' : State) : Prop
    extends Extends s (vs.map .var) [] s' where
  packages : s'.packages = s.packages
  records (ledger : List (Value × Producer)) : Records ledger s.producers →
    Records (ledger ++ vs.mapIdx fun n v => (.input (index + n), varProducer v)) s'.producers

/-- The id of an object cannot be cut to length. -/
def Unnamed (cause : Address.Uncut) (x : TxInput) : Prop :=
  ∃ id, x = .object id ∧ Address.normalize id = .error cause

theorem decodeInput_enters (index : Nat) (x : TxInput) :
    Ensures (Unnamed · x) s (decodeInput index x) fun v s' =>
      (∃ finding, inputVariable index x = .ok (v, finding)) ∧ Extends s [.var v] [] s' ∧
      s'.packages = s.packages ∧
      s'.producers = s.producers.insert (.input (UInt16.ofNat index)) (varProducer v) := by
  refine .bind (.lift fun cause herror => ?_) fun found s₁ ⟨hfound, hsame⟩ => ?_
  · cases x with
    | object id =>
      refine ⟨id, rfl, ?_⟩
      cases hid : Address.normalize id with
      | ok address =>
        simp only [inputVariable, hid] at herror
        cases herror
      | error other =>
        simp only [inputVariable, hid] at herror
        cases herror
        rfl
    | pure type bytes => cases herror
  · rw [hsame]
    obtain ⟨v, finding⟩ := found
    cases finding with
    | none =>
      exact .modify_bind (.modify_bind (.pure ⟨⟨_, hfound⟩, ⟨by simp, by simp, id, id⟩, rfl, rfl⟩))
    | some finding =>
      exact .modify_bind (.modify_bind (.modify_bind (.pure ⟨⟨_, hfound⟩, ⟨by simp, by simp, .push,
        fun h => h.push ((inputVariable_spec hfound).2 finding rfl)⟩, rfl, rfl⟩)))

theorem decodeInputs_enters {inputs : List TxInput} :
    ∀ {s : State} {index : Nat} {done : Array (TxInput × Variable)},
    Ensures (fun cause => ∃ x ∈ inputs, Unnamed cause x) s (decodeInputs index done inputs)
      fun found s' => ∃ vs, VarsOf index inputs vs ∧ found = done ++ (inputs.zip vs).toArray ∧
        Enters index vs s s' := by
  induction inputs with
  | nil =>
    intro s index done
    refine .pure ⟨[], .nil index, by simp, .refl s, rfl, fun ledger h => ?_⟩
    rwa [List.mapIdx_nil, List.append_nil]
  | cons x rest ih =>
    intro s index done
    refine .bind ((decodeInput_enters index x).mono_error fun _ h => ⟨x, List.mem_cons_self, h⟩)
      fun v s₁ ⟨⟨finding, hv⟩, h₁, hpackages, hproducers⟩ => ?_
    refine (ih.mono_error fun _ ⟨y, hy, h⟩ => ⟨y, List.mem_cons_of_mem _ hy, h⟩).mono
      fun found s₂ ⟨vs, hvs, hfound, h₂⟩ => ?_
    refine ⟨v :: vs, .cons hv hvs, by simp [hfound], h₁.trans h₂.toExtends,
      h₂.packages.trans hpackages, fun ledger h => ?_⟩
    have hnext := h₂.records _ (hproducers ▸ h.input index (varProducer v))
    rw [List.append_assoc] at hnext
    rw [List.mapIdx_cons]
    simp only [Nat.add_assoc, Nat.add_comm 1] at hnext ⊢
    exact hnext

theorem records_initial : Records [(.gas, varProducer gasVar)] initial.producers := by
  intro arg
  rw [initial, ProducerTable.get?_insert]
  cases arg <;> simp [latest?, Value.answers, varProducer, gasVar, ProducerTable.get?,
    ProducerTable.empty]

/-! ## Transactions -/

/-- The transaction has an address that cannot be cut to length. -/
def Uncuts (source : SignatureSource) (t : Transaction) (cause : Address.Uncut) : Prop :=
  (∃ x ∈ t.inputs, Unnamed cause x) ∨ ∃ command ∈ t.commands, Blocks source cause command

/-- How the graph of a transaction is drawn. -/
structure Sketched (source : SignatureSource) (t : Transaction) (vs : List Variable) (plan : Plan)
    (packed : List String) (d : Decoded) : Prop where
  vars : VarsOf 0 t.inputs vs
  plans : Plans (contextWith source t vs) 0 t.commands plan
  graph : d.graph = dropUnused ⟨markers ++ vs.map .var ++ plan.nodes 0,
    plan.edges (inputLedger vs) 0 startId⟩ packed
  options : d.options = ⟨t.sender, t.gasBudget⟩
  direct : ∀ g ∈ d.diagnostics, Finding.isDetour g.finding = false
  drops : d.hasErrors = false → ∀ command ∈ t.commands,
    ¬ Drops (contextWith source t vs) command

theorem Sketched.draws {t : Transaction} {vs : List Variable} {plan : Plan} {packed : List String}
    {d : Decoded} (h : Sketched source t vs plan packed d) (huniform : Uniform source) :
    plan = t.commands.mapIdx (draw? (contextWith source t vs)) := by
  simpa only [Nat.zero_add] using h.plans.eq_mapIdx huniform

/-- **The graph of a transaction is drawn by a plan**, unless an address cannot be cut. -/
theorem ofTransaction_sketched (source : SignatureSource) (t : Transaction) :
    Ends (Uncuts source t) (fun d => ∃ vs plan packed, Sketched source t vs plan packed d)
      (Decoded.ofTransaction source t) := by
  have hrun : Ensures (Uncuts source t) initial (decodeAll source t) fun _ s' =>
      ∃ vs plan, ∀ d, d = (⟨dropUnused ⟨s'.nodes.toList, s'.edges.toList⟩ s'.packed,
        s'.diagnostics.toList, ⟨t.sender, t.gasBudget⟩⟩ : Decoded) →
        Sketched source t vs plan s'.packed d := by
    refine .bind (decodeInputs_enters.mono_error fun _ => .inl)
      fun found s₁ ⟨vs, hvs, hfound, h₁⟩ => ?_
    rw [hfound, Array.empty_append]
    have hledger : Records (inputLedger vs) s₁.producers := by
      have hinputs := h₁.records _ records_initial
      simp only [Nat.zero_add] at hinputs
      exact hinputs
    have hcached : Cached source s₁.packages := by
      rw [h₁.packages]
      exact fun _ _ hget => nomatch hget
    refine ((decodeCommands_plans (contextWith source t vs) hledger hcached).mono_error
      fun _ => .inr).mono fun _ s₂ ⟨plan, hplans, h₂, herrors⟩ => ⟨vs, plan, ?_⟩
    have h := h₁.toExtends.trans h₂
    rintro _ rfl
    refine ⟨hvs, hplans, ?_, rfl, h.direct nofun, ?_⟩
    · rw [h.nodes, h.edges, List.nil_append, ← List.append_assoc]
      rfl
    · intro hclean command hmem hdrops
      obtain ⟨g, hg, hseverity⟩ := herrors ⟨command, hmem, hdrops⟩
      simp only [Decoded.hasErrors, List.any_eq_false, beq_iff_eq] at hclean
      exact hclean g hg hseverity
  unfold Decoded.ofTransaction
  unfold Ensures at hrun
  generalize (decodeAll source t).run initial = outcome at hrun
  cases hrun with
  | error h => exact .error h
  | @ok result h =>
    obtain ⟨vs, plan, h⟩ := h
    exact .ok ⟨vs, plan, result.2.packed, h _ rfl⟩

end TxGraph.Decoding
