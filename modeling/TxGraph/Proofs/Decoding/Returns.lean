import TxGraph.Proofs.Address.Cut
import TxGraph.Proofs.Decoding.Structure
import TxGraph.Proofs.Decoding.Variables
import TxGraph.Proofs.Program.Layers

/-!
# Where decoding and compiling return

Decoding and compiling look addresses up by their normal forms, and normalization can fail: it cuts
a text after 64 bytes, and a character may lie across the cut. So decoding returns if the ids of
objects and the packages that are called can be cut, and a graph with both ends compiles if the ids in
its used variables can. A decoded graph has ids that were normalized before. These can have more than
64 bytes, so being decoded is not enough for being compiled.

All this is said where there is room for lists. A list has any length here, but in memory it has less
than `2 ^ 63` bytes, and a command or a signature that gives a count can ask for more items than that.
Such counts are left out: where there is room for all that a transaction lists and a source reports,
there is room for what is decoded, and where there is room for a graph, there is for its program. The
numbers of names have no limit here (`NamePool.numbered`).
-/

namespace TxGraph

/-! ## Room -/

/-- So many items have room in a list: there are 512 bytes for each, more than one takes. -/
def maxItems : Nat := Word.max64 / 1024

theorem maxItems_eq : maxItems = 18014398509481983 :=
  rfl

theorem Command.length_groupPorts_le (expanded : Bool) (group vector : String) (count : Nat)
    (elem : DataType) : (groupPorts expanded group vector count elem).length ≤ max count 1 := by
  cases expanded
  · exact Nat.le_max_right _ _
  · simp only [groupPorts, if_true, numbered, List.length_map, List.length_zipIdx,
      List.length_replicate]
    exact Nat.le_max_left _ _

def Command.HasRoom (c : Command) : Prop :=
  c.inputPorts.length ≤ maxItems ∧ c.outputPorts.length ≤ maxItems

/-- The ports of the commands that run have room. -/
def Graph.HasRoom (g : Graph) : Prop :=
  ∀ x ∈ Compile.commandsOf g g.flow.order, x.2.HasRoom

instance (g : Graph) : Decidable g.HasRoom :=
  inferInstanceAs (Decidable (∀ x ∈ _, _ ∧ _))

def Program.HasRoom (p : Program) : Prop :=
  ∀ op ∈ p.ops, op.operands.length ≤ maxItems ∧ op.outputs.length ≤ maxItems

/-- What is asked for by a signature has room. A call has ports for this and for its arguments, so
each of the two is to have a half. -/
def Signature.HasRoom (s : Signature) : Prop :=
  s.typeParams + s.inputs.length ≤ maxItems / 2 ∧ s.outputs.length ≤ maxItems

def MoveCall.HasRoom (call : MoveCall) : Prop :=
  call.typeParams.length + call.params.length ≤ maxItems / 2 ∧ call.returns.length ≤ maxItems

/-- The arguments of each command have room. -/
def Transaction.HasRoom (t : Transaction) : Prop :=
  ∀ c ∈ t.commands, c.typeArgs.length + c.args.length ≤ maxItems / 2

instance (t : Transaction) : Decidable t.HasRoom :=
  inferInstanceAs (Decidable (∀ c ∈ _, _))

theorem Signature.HasRoom.withSignature {s : Signature} (h : s.HasRoom) (call : MoveCall) :
    (call.withSignature s).HasRoom := by
  have hcontext : s.withoutContext.typeParams = s.typeParams ∧
      s.withoutContext.inputs.length ≤ s.inputs.length ∧ s.withoutContext.outputs = s.outputs := by
    unfold withoutContext
    split
    · split
      · exact ⟨rfl, by simp, rfl⟩
      · exact ⟨rfl, Nat.le_refl _, rfl⟩
    · exact ⟨rfl, Nat.le_refl _, rfl⟩
  obtain ⟨htypes, hinputs, houtputs⟩ := hcontext
  obtain ⟨hin, hout⟩ := h
  simp only [MoveCall.HasRoom, MoveCall.withSignature, List.length_map, List.length_range, htypes,
    houtputs]
  omega

theorem Graph.HasRoom.compile {g : Graph} (h : g.HasRoom) {reserved : List String} {p : Program}
    (hp : g.compile reserved = .ok p) : p.HasRoom := by
  obtain ⟨ps, s, s', -, -, -, hruns⟩ := g.compile_runs hp
  refine hruns.forall_ops fun id c t hc => ?_
  have hemits := Compile.operation_emits g id c t
  obtain ⟨hinputs, houtputs⟩ := h _ hc
  rw [hemits.operands, hemits.outputs, List.length_map, List.length_map]
  exact ⟨hinputs, houtputs⟩

/-! ## Variables -/

namespace Variable

variable {v : Variable}

/-- The text by which the object of a variable is looked up among the shared ones. -/
structure LooksUp (v : Variable) (text : String) : Prop where
  object : ∃ tag, v.type = .object tag ∧ tag ≠ some DataType.idTag
  value : ∃ s, v.value = some (.str s) ∧ Text.trim s = text
  given : text.isEmpty = false
  other : Text.lowerAscii text ≠ "gas"

theorem exists_objectById_iff {id : String} :
    (∃ found, objectById id = .ok found) ↔ Address.Cuts id := by
  rw [← Address.exists_normalize_iff]
  exact exists_bind_pure_iff

theorem bind_string?_eq_some {s : String} :
    v.value.bind Json.string? = some s ↔ v.value = some (.str s) := by
  rw [Option.bind_eq_some_iff]
  constructor
  · rintro ⟨j, hj, hstring⟩
    cases j with
    | str text =>
      cases hstring
      exact hj
    | _ => cases hstring
  · exact fun h => ⟨_, h, rfl⟩

theorem exists_specialObject_iff {tag : Option String} :
    (∃ found, v.specialObject tag = .ok found) ↔ ∀ s, v.value = some (.str s) →
      (Text.trim s).isEmpty = false → Text.lowerAscii (Text.trim s) ≠ "gas" →
      Address.Cuts (Text.trim s) := by
  simp only [← bind_string?_eq_some]
  unfold specialObject
  cases v.value.bind Json.string? with
  | none => exact iff_of_true ⟨_, rfl⟩ fun s hs => by cases hs
  | some s =>
    simp only [Option.some.injEq, forall_eq']
    by_cases hgas : Text.lowerAscii (Text.trim s) = "gas"
    · simp [hgas]
    · rw [if_neg hgas]
      cases hempty : (Text.trim s).isEmpty with
      | true => simp
      | false => simp [exists_objectById_iff, hgas]

/-- It is known what a variable stands for unless its object has an id that cannot be cut. -/
theorem exists_inlined_iff :
    (∃ found, v.inlined = .ok found) ↔ ∀ text, v.LooksUp text → Address.Cuts text := by
  have hother (h : ∀ tag, v.type = .object tag → tag = some DataType.idTag) :
      ∀ text, v.LooksUp text → Address.Cuts text := by
    intro text htext
    obtain ⟨tag, htype, htag⟩ := htext.object
    exact absurd (h tag htype) htag
  unfold inlined
  split
  case h_1 tag htype =>
    split
    case isTrue hid =>
      refine iff_of_true ⟨_, rfl⟩ (hother fun tag' htype' => ?_)
      cases htype.symm.trans htype'
      exact hid
    case isFalse hid =>
      rw [exists_bind_pure_iff, exists_specialObject_iff]
      constructor
      · rintro h text ⟨-, ⟨s, hs, rfl⟩, hgiven, hgas⟩
        exact h s hs hgiven hgas
      · exact fun h s hs hgiven hgas => h _ ⟨⟨tag, htype, hid⟩, ⟨s, hs, rfl⟩, hgiven, hgas⟩
  case h_2 htype =>
    exact iff_of_true ⟨_, rfl⟩ (hother fun _ htype' => nomatch htype.symm.trans htype')
  case h_3 hnot _ =>
    exact iff_of_true ⟨_, rfl⟩ (hother fun tag htype => absurd htype (hnot tag))

end Variable

/-! ## Transactions -/

def TxInput.objectId? : TxInput → Option String
  | .object id => some id
  | .pure .. => none

def TxCommand.package? : TxCommand → Option String
  | .moveCall package .. => some package
  | _ => none

/-- The texts that are looked up as addresses: the ids of objects and the packages of calls. -/
def Transaction.lookUps (t : Transaction) : List String :=
  t.inputs.filterMap TxInput.objectId? ++ t.commands.filterMap TxCommand.package?

namespace Decoding

/-- A source reads every package id that can be cut, and what it reports has room. -/
structure Reads (source : SignatureSource) : Prop where
  cuts : ∀ package cause, source package = .error (.uncut cause) → ¬ Address.Cuts package
  room : ∀ package signatures module function signature, source package = .ok signatures →
    signatures.function? module function = some signature → signature.HasRoom

theorem not_cuts_of_uncuts {source : SignatureSource} (hsource : Reads source) {t : Transaction}
    {cause : Address.Uncut} (h : Uncuts source t cause) : ∃ text ∈ t.lookUps, ¬ Address.Cuts text := by
  rcases h with ⟨x, hx, id, rfl, hid⟩ | ⟨command, hcommand, hblocks⟩
  · exact ⟨id, List.mem_append_left _ (List.mem_filterMap.mpr ⟨_, hx, rfl⟩),
      Address.not_cuts_of_normalize hid⟩
  · cases command with
    | moveCall package =>
      refine ⟨package, List.mem_append_right _ (List.mem_filterMap.mpr ⟨_, hcommand, rfl⟩), ?_⟩
      rcases hblocks with hpackage | huncut
      · exact Address.not_cuts_of_normalize hpackage
      · exact hsource.cuts package cause huncut
    | _ => exact hblocks.elim

variable {s : State} (c : Context)

theorem decodeCall_reads (node : String) (index : UInt16) (package module function : String)
    (typeArgs args : Nat) :
    Ensures (fun _ => True) s (decodeCall c node index package module function typeArgs args)
      fun _ _ => Address.Cuts package := by
  have hpackage : Ensures (fun _ => True) s (packageSignatures c node package)
      fun _ _ => Address.Cuts package :=
    .bind (.lift fun _ _ => trivial) fun key _ ⟨hkey, _⟩ =>
      .always _ fun _ _ => Address.exists_normalize_iff.mp ⟨key, hkey⟩
  exact .bind hpackage fun _ _ hcuts => .always _ fun _ _ => hcuts

theorem decodeCommand_reads (k : Nat) (command : TxCommand) :
    Ensures (fun _ => True) s (decodeCommand c k command)
      fun _ _ => ∀ package ∈ command.package?, Address.Cuts package := by
  cases command with
  | moveCall package module function typeArgs args =>
    have hshape : Ensures (fun _ => True) s
        (decodeShape c (commandId k) k (.moveCall package module function typeArgs args))
        fun _ _ => Address.Cuts package :=
      .bind (decodeCall_reads c _ _ package module function _ _) fun _ _ hcuts =>
        .always _ fun _ _ => hcuts
    refine .bind hshape fun _ _ hcuts => .always _ fun _ _ found hfound => ?_
    cases hfound
    exact hcuts
  | _ => exact .always _ fun _ _ => nofun

theorem decodeCommands_reads {commands : List TxCommand} :
    ∀ {s : State} {k : Nat} {previous : String},
    Ensures (fun _ => True) s (decodeCommands c k previous commands)
      fun _ _ => ∀ package ∈ commands.filterMap TxCommand.package?, Address.Cuts package := by
  induction commands with
  | nil => exact .always _ fun _ _ => nofun
  | cons command rest ih =>
    intro s k previous
    refine .bind (decodeCommand_reads c k command) fun node s₁ hcommand => ?_
    have hcons (hrest : ∀ package ∈ rest.filterMap TxCommand.package?, Address.Cuts package) :
        ∀ package ∈ (command :: rest).filterMap TxCommand.package?, Address.Cuts package := by
      intro package hpackage
      obtain ⟨found, hfound, hmem⟩ := List.mem_filterMap.mp hpackage
      rcases List.mem_cons.mp hfound with rfl | hfound
      · exact hcommand package hmem
      · exact hrest package (List.mem_filterMap.mpr ⟨found, hfound, hmem⟩)
    cases node with
    | none => exact ih.mono fun _ _ => hcons
    | some node => exact .modify_bind (ih.mono fun _ _ => hcons)

theorem VarsOf.cuts {index : Nat} {inputs : List TxInput} {vs : List Variable}
    (h : VarsOf index inputs vs) : ∀ id ∈ inputs.filterMap TxInput.objectId?, Address.Cuts id := by
  intro id hid
  obtain ⟨x, hx, hobject⟩ := List.mem_filterMap.mp hid
  cases x with
  | pure type bytes => cases hobject
  | object id' =>
    cases hobject
    obtain ⟨n, hn⟩ := List.mem_iff_getElem?.mp hx
    have hlt : n < vs.length := h.length_eq ▸ (List.getElem?_eq_some_iff.mp hn).1
    obtain ⟨y, finding, hy, hvar⟩ := h.input_of_var (List.getElem?_eq_getElem hlt)
    cases hn.symm.trans hy
    obtain ⟨key, hkey, -⟩ := bind_eq_ok.mp hvar
    exact Address.exists_normalize_iff.mp ⟨key, hkey⟩

theorem decodeAll_reads (source : SignatureSource) (t : Transaction) :
    Ensures (fun _ => True) s (decodeAll source t)
      fun _ _ => ∀ text ∈ t.lookUps, Address.Cuts text := by
  refine .bind (decodeInputs_enters.mono_error fun _ _ => trivial)
    fun inputs _ ⟨vs, hvs, _, _⟩ => ?_
  refine (decodeCommands_reads _).mono fun _ _ hpackages text htext => ?_
  rcases List.mem_append.mp htext with hid | hpackage
  · exact hvs.cuts text hid
  · exact hpackages text hpackage

/-- **Decoding** returns if all that is looked up can be cut. -/
theorem exists_ofTransaction_iff {source : SignatureSource} (hsource : Reads source)
    (t : Transaction) :
    (∃ d, Decoded.ofTransaction source t = .ok d) ↔ ∀ text ∈ t.lookUps, Address.Cuts text := by
  constructor
  · rintro ⟨d, hd⟩
    obtain ⟨⟨_, s⟩, hrun, -⟩ := bind_eq_ok.mp hd
    exact (decodeAll_reads source t).of_run hrun
  · intro h
    obtain ⟨d, hd, -⟩ := (ofTransaction_sketched source t).exists_ok fun cause hcause => by
      obtain ⟨text, htext, hcut⟩ := not_cuts_of_uncuts hsource hcause
      exact hcut (h text htext)
    exact ⟨d, hd⟩

/-! ## Decoded graphs -/

theorem inputVariable_eq_ok {index : Nat} {x : TxInput} {v : Variable} {finding : Option Finding}
    (h : inputVariable index x = .ok (v, finding)) :
    (∃ id key, x = .object id ∧ Address.normalize id = .ok key ∧ v = inputVar index (.object key)) ∨
      ∃ type bytes, x = .pure type bytes ∧ v = inputVar index x := by
  cases x with
  | object id =>
    obtain ⟨key, hkey, heq⟩ := bind_eq_ok.mp h
    cases heq
    exact .inl ⟨id, key, rfl, hkey, rfl⟩
  | pure type bytes =>
    cases h
    exact .inr ⟨type, bytes, rfl, rfl⟩

/-- What is decoded from bytes is no object that could be looked up. -/
theorem exists_inlined_pure (index : Nat) (type : Option String) (bytes : Bytes) :
    ∃ found, (inputVar index (.pure type bytes)).inlined = .ok found := by
  refine Variable.exists_inlined_iff.mpr fun text htext => ?_
  obtain ⟨tag, htype, htag⟩ := htext.object
  change (pureInput type bytes).1 = .object tag at htype
  unfold pureInput at htype
  cases type with
  | none => cases htype
  | some spelling =>
    dsimp only at htype
    split at htype
    case h_2 => cases htype
    case h_1 value hvalue =>
      obtain ⟨_, hread, -⟩ := bind_eq_ok.mp hvalue
      dsimp only at htype
      rw [htype, PureValue.decodeValue, if_neg htag] at hread
      cases hread

/-- The variable of an object is looked up by the normal form of its id. -/
theorem exists_inlined_object_iff {id key : String} (h : Address.normalize id = .ok key)
    (index : Nat) :
    (∃ found, (inputVar index (.object key)).inlined = .ok found) ↔ Address.Cuts key := by
  obtain ⟨cs, hkey, -⟩ := Address.normalize_eq_ok h
  obtain ⟨rest, htrim⟩ := Text.exists_toList_trim hkey rfl
  have hlooksUp : (inputVar index (.object key)).LooksUp (Text.trim key) := by
    refine ⟨⟨none, rfl, nofun⟩, ⟨key, rfl, rfl⟩, ?_, fun hgas => ?_⟩
    · rw [String.isEmpty_eq_false_iff]
      intro hnil
      rw [hnil] at htrim
      cases htrim
    · have hhead := congrArg (·.toList.head?) hgas
      simp [Text.lowerAscii, htrim] at hhead
  rw [Variable.exists_inlined_iff, ← Address.cuts_trim]
  refine ⟨fun hall => hall _ hlooksUp, ?_⟩
  rintro hcuts text ⟨-, ⟨s, hs, rfl⟩, -, -⟩
  cases hs
  exact hcuts

theorem callBy_hasRoom {source : SignatureSource} (hsource : Reads source)
    (other package module function : String) :
    (callBy (source other).toOption package module function).HasRoom := by
  unfold callBy
  cases hanswer : source other with
  | error cause => exact ⟨Nat.zero_le _, Nat.zero_le _⟩
  | ok signatures =>
    simp only [Except.toOption, Option.bind_some]
    cases hsignature : signatures.function? module function with
    | none => exact ⟨Nat.zero_le _, Nat.zero_le _⟩
    | some signature => exact (hsource.room _ _ _ _ _ hanswer hsignature).withSignature _

/-- A command that is drawn has ports for its arguments, one more at most, and for its signature. -/
theorem Depicts.hasRoom {c : Context} {k : Nat} {command : TxCommand} {d : Drawing}
    (h : Depicts c k command d) (hsource : Reads c.source)
    (hfew : command.typeArgs.length + command.args.length ≤ maxItems / 2) :
    d.command.HasRoom := by
  obtain ⟨houtlines, hanswered⟩ := h
  have hitems := maxItems_eq
  cases command with
  | unsupported => cases houtlines
  | moveCall package module function typeArgs args =>
    obtain ⟨call, rfl⟩ := houtlines
    obtain ⟨other, -, rfl⟩ := hanswered
    obtain ⟨hinputs, houtputs⟩ := callBy_hasRoom hsource other package module function
    have harity := arity_lt c (UInt16.ofNat k)
    have hlimit : Limited.limit = 65536 := rfl
    change typeArgs.length + args.length ≤ maxItems / 2 at hfew
    simp only [Command.HasRoom, drawCall, widen, Command.inputPorts, Command.outputPorts,
      Command.typeArgPorts, Command.numbered, List.length_append, List.length_map,
      List.length_zipIdx, length_padTypeParams, length_padTypes]
    omega
  | makeMoveVec elem elems =>
    cases houtlines
    change 0 + elems.length ≤ maxItems / 2 at hfew
    rw [command_drawVector]
    refine ⟨Nat.le_trans (Command.length_groupPorts_le ..) ?_, ?_⟩
    · omega
    · change 1 ≤ maxItems
      omega
  | _ =>
    cases houtlines
    simp only [TxCommand.typeArgs, TxCommand.args, List.length_nil, List.length_cons,
      List.length_append] at hfew
    simp only [Command.HasRoom, Command.inputPorts, Command.outputPorts, Command.groupPorts,
      Command.numbered, Command.isExpanded, if_true, List.length_cons, List.length_append,
      List.length_map, List.length_zipIdx, List.length_replicate, List.length_nil]
    omega

section

variable {source : SignatureSource} {t : Transaction} {vs : List Variable} {plan : Plan}
  {packed : List String} {d : Decoded} (h : Sketched source t vs plan packed d)

include h

theorem Sketched.isSome_ends : d.graph.start?.isSome ∧ d.graph.finish?.isSome := by
  have hone {isMarker : Node → Bool} (hcount : d.graph.nodes.countP isMarker = 1) :
      (d.graph.nodes.find? isMarker).isSome = true :=
    List.find?_isSome.mpr (List.countP_pos_iff.mp (hcount ▸ Nat.one_pos))
  exact ⟨hone h.countP_isStart, hone h.countP_isFinish⟩

/-- It is known what a variable of a decoded graph stands for, unless it is that of an object. -/
theorem Sketched.exists_inlined_or {v : Variable} (hv : .var v ∈ d.graph.nodes) :
    (∃ found, v.inlined = .ok found) ∨ ∃ i id key, t.inputs[i]? = some (.object id) ∧
      Address.normalize id = .ok key ∧ v = inputVar i (.object key) := by
  rcases List.mem_append.mp (h.nodes_sublist.subset hv) with hv | hv
  · rcases List.mem_append.mp hv with hv | hv
    · have hgas : v = gasVar := by simpa [markers] using hv
      exact .inl (hgas ▸ ⟨_, inlined_gasVar⟩)
    · obtain ⟨w, hw, heq⟩ := List.mem_map.mp hv
      cases heq
      obtain ⟨i, hi⟩ := List.mem_iff_getElem?.mp hw
      obtain ⟨x, finding, hx, hvar⟩ := h.vars.input_of_var hi
      rw [Nat.zero_add] at hvar
      rcases inputVariable_eq_ok hvar with ⟨id, key, rfl, hkey, rfl⟩ | ⟨type, bytes, rfl, rfl⟩
      · exact .inr ⟨i, id, key, hx, hkey, rfl⟩
      · exact .inl (exists_inlined_pure i type bytes)
  · obtain ⟨j, drawing, hj, hv⟩ := Plan.mem_nodes.mp hv
    obtain ⟨command, -, hdepicts⟩ := h.plans.command_of_drawing hj
    rcases mem_drawing hv with ⟨⟨w, port⟩, hfeed, heq⟩ | heq
    · cases heq
      exact .inl ⟨_, inlined_of_feed hdepicts.outlines hfeed⟩
    · cases heq

theorem Sketched.hasRoom (hsource : Reads source) (ht : t.HasRoom) : d.graph.HasRoom := by
  rintro ⟨id, c⟩ hc
  have hnode := List.mem_of_find?_eq_some (Compile.mem_commandsOf.mp hc).2
  rcases List.mem_append.mp (h.nodes_sublist.subset hnode) with hmarker | hplan
  · simp [markers] at hmarker
  · obtain ⟨j, drawing, hj, hn⟩ := Plan.mem_nodes.mp hplan
    obtain ⟨command, hlisted, hdepicts⟩ := h.plans.command_of_drawing hj
    rcases mem_drawing hn with ⟨f, -, heq⟩ | heq
    · cases heq
    · cases heq
      exact hdepicts.hasRoom hsource (ht command (List.mem_of_getElem? hlisted))

/-- **Decoded graphs** compile if the normal forms of the objects that are used can be cut. -/
theorem Sketched.exists_compile_iff {reserved : List String} :
    (∃ p, d.graph.compile reserved = .ok p) ↔ ∀ i id key, t.inputs[i]? = some (.object id) →
      Address.normalize id = .ok key →
      inputVar i (.object key) ∈ Compile.usedVariables d.graph d.graph.flow.order →
      Address.Cuts key := by
  rw [Graph.exists_compile_iff, iff_true_intro h.isSome_ends.1, iff_true_intro h.isSome_ends.2,
    true_and, true_and]
  refine ⟨fun hall i id key _ hkey hused => ?_, fun hall v hused => ?_⟩
  · exact (exists_inlined_object_iff hkey i).mp (hall _ hused)
  · rcases h.exists_inlined_or (Compile.var_mem_of_mem_usedVariables hused) with
      hknown | ⟨i, id, key, hx, hkey, rfl⟩
    · exact hknown
    · exact (exists_inlined_object_iff hkey i).mpr (hall i id key hx hkey hused)

end

end Decoding

/-- **Decoding and compiling return**, unless an address cannot be cut to length.

Decoding a transaction gives a graph exactly if the ids of its objects and the packages that it calls
can be cut. A graph compiles exactly if it has both ends and the ids that its used variables look up
can be cut. For a decoded graph these are the normal forms of the ids of the transaction. Texts of
ASCII can always be cut, and so can their normal forms. All this is for lists that have room, and then
the lists of the graph or the program have it too. -/
theorem returns_iff_cuts {source : Decoding.SignatureSource} (hsource : Decoding.Reads source)
    {t : Transaction} (ht : t.HasRoom) (g : Graph) (reserved : List String) :
    ((∃ d, Decoded.ofTransaction source t = .ok d) ↔ ∀ text ∈ t.lookUps, Address.Cuts text) ∧
    (g.HasRoom → ((∃ p, g.compile reserved = .ok p) ↔ g.start?.isSome ∧ g.finish?.isSome ∧
      ∀ v ∈ Compile.usedVariables g g.flow.order, ∀ text, v.LooksUp text → Address.Cuts text) ∧
      ∀ p, g.compile reserved = .ok p → p.HasRoom) ∧
    (∀ d, Decoded.ofTransaction source t = .ok d → d.graph.HasRoom ∧
      ((∃ p, d.graph.compile reserved = .ok p) ↔
        ∀ i id key, t.inputs[i]? = some (.object id) → Address.normalize id = .ok key →
          Decoding.inputVar i (.object key) ∈
            Compile.usedVariables d.graph d.graph.flow.order → Address.Cuts key)) ∧
    ∀ text, Address.IsAscii text → Address.Cuts text ∧
      ∀ key, Address.normalize text = .ok key → Address.Cuts key := by
  refine ⟨Decoding.exists_ofTransaction_iff hsource t,
    fun hroom => ⟨?_, fun p hp => hroom.compile hp⟩, fun d hd => ?_,
    fun text htext => ⟨htext.cuts, fun key hkey => (htext.normalize hkey).cuts⟩⟩
  · simp only [Graph.exists_compile_iff, Variable.exists_inlined_iff]
  · have hends := Decoding.ofTransaction_sketched source t
    rw [hd] at hends
    obtain ⟨vs, plan, packed, h⟩ := hends.of_ok
    exact ⟨h.hasRoom hsource ht, h.exists_compile_iff⟩

/-- The last character lies across byte 64. -/
def longText : String :=
  "0xaaaaaaaaaaaaaaaaaaaaaaaaaaaaaaaaaaaaaaaaaaaaaaaaaaaaaaaaaaaaaaaé"

/-- A text that is filled up, so that its last character comes to lie there. -/
def shortText : String :=
  "0xaé"

def fullText : String :=
  "0x00000000000000000000000000000000000000000000000000000000000000aé"

def callOfLong : Transaction where
  sender := none
  gasBudget := none
  inputs := []
  commands := [.moveCall longText "vault" "open" [] []]

def mergeOfShort : Transaction where
  sender := none
  gasBudget := none
  inputs := [.object shortText]
  commands := [.mergeCoins .gasCoin [.input 0]]

def mergeOfLong : Graph where
  nodes := [.start "s", .var ⟨"x", "coin", .anyObject, some (.str longText)⟩,
    .command "c" (.mergeCoins 1 false), .finish "e"]
  edges := [.flow "s" "c", .flow "c" "e", .io "x" "out" "c" "in_sources" none]

theorem returns_iff_cuts_longText :
    (¬ ∃ d, Decoded.ofTransaction (fun id => .error (.noPackage id)) callOfLong = .ok d) ∧
    (mergeOfLong.start?.isSome ∧ mergeOfLong.finish?.isSome ∧
      ¬ ∃ p, mergeOfLong.compile [] = .ok p) ∧
    ∃ d, Decoded.ofTransaction (fun id => .error (.noPackage id)) mergeOfShort = .ok d ∧
      ¬ ∃ p, d.graph.compile [] = .ok p := by
  have hsource : Decoding.Reads fun id => .error (.noPackage id) := by
    constructor
    · intro _ _ h
      cases h
    · intro _ _ _ _ _ h
      cases h
  have hlong := returns_iff_cuts hsource (t := callOfLong) (by decide) mergeOfLong []
  have hshort := returns_iff_cuts hsource (t := mergeOfShort) (by decide) mergeOfLong []
  have hroom : mergeOfLong.HasRoom := by decide +kernel
  refine ⟨fun hd => absurd (hlong.1.mp hd) (by decide +kernel),
    ⟨by decide +kernel, by decide +kernel, fun hp => ?_⟩, ?_⟩
  · have hcuts := ((hlong.2.1 hroom).1.mp hp).2.2 ⟨"x", "coin", .anyObject, some (.str longText)⟩
      (by decide +kernel) longText
      ⟨⟨none, rfl, nofun⟩, ⟨longText, rfl, by decide +kernel⟩, by decide +kernel, by decide +kernel⟩
    exact absurd hcuts (by decide +kernel)
  · obtain ⟨d, hd⟩ := hshort.1.mpr (by decide +kernel)
    refine ⟨d, hd, fun hp => ?_⟩
    have hused : (Decoded.ofTransaction (fun id => .error (.noPackage id)) mergeOfShort).map
        (fun d => Compile.usedVariables d.graph d.graph.flow.order) =
        .ok [Decoding.gasVar, Decoding.inputVar 0 (.object fullText)] := by decide +kernel
    rw [hd] at hused
    have hlist : Compile.usedVariables d.graph d.graph.flow.order =
        [Decoding.gasVar, Decoding.inputVar 0 (.object fullText)] := Except.ok.inj hused
    have hcuts := (hshort.2.2.1 d hd).2.mp hp 0 shortText fullText rfl (by decide +kernel)
      (by rw [hlist]; simp)
    exact absurd hcuts (by decide +kernel)

end TxGraph
