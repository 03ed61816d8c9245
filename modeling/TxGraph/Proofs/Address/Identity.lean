import TxGraph.Proofs.Lowering.Agreement
import TxGraph.Proofs.Lowering.Termination
import TxGraph.Proofs.Transaction.Limits

/-!
# One object for each address

Objects are kept by the full form of their address: a builder has one input for each, a writer of
script one handle. Both take the strict reading of a text, and on strict addresses the lenient one
gives the same form. So two texts are the same object exactly if they are the same 32 bytes,
whatever their case, zeros in front and blanks (`readings_agree`).
-/

namespace TxGraph

open Transaction Script

/-! ## Builders -/

namespace Transaction.Builder

variable {b b' : Builder} {text full : String} {arg : TxArg}

/-- The input that a call gives out is the only one of its object. -/
theorem Sound.addObject (hb : Sound b) (hfull : fullAddress text = .ok full)
    (h : ((addObject text).run b).1 = .ok arg) : Keeps b ((addObject text).run b).2 ∧
      ∃ i : UInt16, arg = .input i ∧
        ∀ n, ((addObject text).run b).2.inputs[n]? = some (.object full) ↔ n = i.toNat := by
  have houtcome := hb.object_outcome hfull
  rw [run_map, h] at houtcome
  generalize ((Builder.addObject text).run b).2 = b' at houtcome ⊢
  cases houtcome with
  | granted hinputs hcommands _ hargs =>
    obtain ⟨i, harg, hi⟩ := hargs
    cases harg
    exact ⟨hb.apply hinputs hcommands, i, rfl, hi⟩

theorem Sound.addObject_of_input (hb : Sound b) (hfull : fullAddress text = .ok full) {i : UInt16}
    (hi : b.inputs[i.toNat]? = some (.object full)) :
    ((Builder.addObject text).run b).1 = .ok (.input i) := by
  rw [run_addObject, hfull]
  dsimp only
  cases hfind : b.inputs.findIdx? (· == .object full) with
  | none => exact absurd (Array.mem_of_getElem? hi) (findIdx?_object_eq_none.mp hfind)
  | some n =>
    obtain rfl := hb.objects (findIdx?_object hfind) hi
    simp only [UInt16.ofNat_toNat]

/-- A later call is given the same input exactly if it is for the same object. -/
theorem Sound.addObject_again {text' full' : String} (hb : Sound b)
    (hfull : fullAddress text = .ok full) (hfull' : fullAddress text' = .ok full')
    (h : ((Builder.addObject text).run b).1 = .ok arg)
    (hlater : Reaches ((Builder.addObject text).run b).2 b') :
    (∃ i, arg = .input i ∧ b'.inputs[i.toNat]? = some (.object full)) ∧
      (((Builder.addObject text').run b').1 = .ok arg ↔ full = full') := by
  obtain ⟨hkeeps, i, rfl, hi⟩ := hb.addObject hfull h
  have hlast := hlater.keeps hkeeps.sound
  have hknown := hlast.inputs ((hi _).mpr rfl)
  refine ⟨⟨i, rfl, hknown⟩, fun hagain => ?_, ?_⟩
  · obtain ⟨hkeeps', j, hj, hat⟩ := hlast.sound.addObject hfull' hagain
    cases hj
    have hsame := (hkeeps'.inputs hknown).symm.trans ((hat _).mpr rfl)
    exact TxInput.object.inj (Option.some.inj hsame)
  · rintro rfl
    exact hlast.sound.addObject_of_input hfull' hknown

end Transaction.Builder

/-! ## Writers of script -/

inductive Target.Next {σ η : Type} (T : Target σ η) : σ → σ → Prop
  | object {o symbol s a s'} : T.object o symbol s = .ok (a, s') → T.Next s s'
  | pure {kind value symbol s a s'} : T.pure kind value symbol s = .ok (a, s') → T.Next s s'
  | splitCoins {coin amounts out s as s'} :
    T.splitCoins coin amounts out s = .ok (as, s') → T.Next s s'
  | mergeCoins {destination sources s s'} :
    T.mergeCoins destination sources s = .ok ((), s') → T.Next s s'
  | transferObjects {objects recipient s s'} :
    T.transferObjects objects recipient s = .ok ((), s') → T.Next s s'
  | makeMoveVec {elem elems out s a s'} :
    T.makeMoveVec elem elems out s = .ok (a, s') → T.Next s s'
  | moveCall {callee args out s as s'} : T.moveCall callee args out s = .ok (as, s') → T.Next s s'
  | publish {modules dependencies out s a s'} :
    T.publish modules dependencies out s = .ok (a, s') → T.Next s s'
  | upgrade {modules dependencies package ticket out s a s'} :
    T.upgrade modules dependencies package ticket out s = .ok (a, s') → T.Next s s'

namespace Script.Writer

abbrev Reaches : Writer → Writer → Prop :=
  Relation.ReflTransGen target.Next

variable {w w' : Writer}

/-- Only calls for objects change what is known of them. -/
theorem objects_of_next (h : target.Next w w') : w'.objects = w.objects ∨
    ∃ o symbol handle, object o symbol w = .ok (handle, w') := by
  cases h with
  | object h => exact .inr ⟨_, _, _, h⟩
  | @pure kind value symbol _ _ _ h =>
    change literal kind value symbol w = _ at h
    unfold literal at h
    split at h
    · cases h
      exact .inl (Lowering.hoist_objects _ _ _)
    · obtain ⟨_, -, h⟩ := bind_eq_ok.mp h
      cases h
      exact .inl (Lowering.hoist_objects _ _ _)
  | mergeCoins h | transferObjects h | makeMoveVec h | publish h =>
    obtain ⟨_, -, h⟩ := bind_eq_ok.mp h
    cases h
    exact .inl rfl
  | splitCoins h | upgrade h =>
    obtain ⟨_, -, h⟩ := bind_eq_ok.mp h
    obtain ⟨_, -, h⟩ := bind_eq_ok.mp h
    cases h
    exact .inl rfl
  | moveCall h =>
    obtain ⟨_, -, h⟩ := bind_eq_ok.mp h
    obtain ⟨_, -, h⟩ := bind_eq_ok.mp h
    obtain ⟨_, -, h⟩ := bind_eq_ok.mp h
    cases h
    exact .inl rfl

theorem object_of_fullAddress {text full : String} (h : Builder.fullAddress text = .ok full)
    (symbol : Option String) (w : Writer) :
    object (.byId text) symbol w = .ok (w.known full (.object (Text.trim text)) symbol) := by
  rw [object, h]
  rfl

/-- What calls keep: objects are shown by their addresses, and keep the handles that they have. -/
structure Keeps (w w' : Writer) : Prop where
  shows : Lowering.ShowsObjects w'
  known {id : String} {handle : Handle} : Directory.get? w.objects id = some handle →
    Directory.get? w'.objects id = some handle

theorem keeps_of_object (hw : Lowering.ShowsObjects w) {o : ObjectRef} {symbol : Option String}
    {handle : Handle} (h : object o symbol w = .ok (handle, w')) : Keeps w w' := by
  have hknown := h
  rw [Lowering.writer_object_eq] at hknown
  cases htext : o.text? with
  | none =>
    rw [htext] at hknown
    cases hknown
    exact ⟨hw, id⟩
  | some text =>
    rw [htext] at hknown
    obtain ⟨full, -, hknown⟩ := bind_eq_ok.mp hknown
    obtain ⟨_, -, -, hkeeps⟩ := Lowering.writer_finds.added htext h
    have hlast : (w.known full (Lowering.objectExpr o) symbol).2 = w' :=
      congrArg Prod.snd (Except.ok.inj hknown)
    exact ⟨hlast ▸ hw.known full _ symbol, hkeeps _ _⟩

theorem Reaches.keeps (h : Reaches w w') (hw : Lowering.ShowsObjects w) : Keeps w w' := by
  induction h with
  | refl => exact ⟨hw, id⟩
  | tail _ hnext ih =>
    rcases objects_of_next hnext with hsame | ⟨o, symbol, handle, hobject⟩
    · refine ⟨?_, fun h => ?_⟩
      · rw [Lowering.ShowsObjects, hsame]
        exact ih.shows
      · rw [hsame]
        exact ih.known h
    · have hlast := keeps_of_object ih.shows hobject
      exact ⟨hlast.shows, fun h => hlast.known (ih.known h)⟩

/-- A later call is given the same handle exactly if it is for the same object. -/
theorem object_again {text text' full full' : String} (hw : Lowering.ShowsObjects w)
    (hfull : Builder.fullAddress text = .ok full) (hfull' : Builder.fullAddress text' = .ok full')
    (symbol : Option String) : ∃ handle w₁, object (.byId text) symbol w = .ok (handle, w₁) ∧
      ∀ w₂ symbol', Reaches w₁ w₂ → ∃ handle' w₃,
        object (.byId text') symbol' w₂ = .ok (handle', w₃) ∧ (handle' = handle ↔ full = full') := by
  obtain ⟨handle, w₁, hfirst⟩ : ∃ handle w₁, object (.byId text) symbol w = .ok (handle, w₁) :=
    ⟨_, _, object_of_fullAddress hfull symbol w⟩
  obtain ⟨id, hid, hget, -⟩ := Lowering.writer_finds.added (o := .byId text) rfl hfirst
  obtain rfl := Except.ok.inj (hfull.symm.trans hid)
  have hw₁ := keeps_of_object hw hfirst
  refine ⟨handle, w₁, hfirst, fun w₂ symbol' hlater => ?_⟩
  have hw₂ := hlater.keeps hw₁.shows
  refine ⟨(w₂.known full' (.object (Text.trim text')) symbol').1, _,
    object_of_fullAddress hfull' symbol' w₂, fun hsame => ?_, ?_⟩
  · have harg := hw₂.shows.known_arg full' (.object (Text.trim text')) symbol'
    rw [hsame, hw₁.shows _ _ hget] at harg
    exact TraceArg.object.inj harg
  · rintro rfl
    rw [known, hw₂.known hget]

end Script.Writer

/-! ## Addresses -/

namespace Address

/-- **Strict and lenient readings of addresses agree.** A strict address is normalized to the full
form of its 32 bytes, and full forms are read back. So two strict addresses have the same normal form,
the same input of a builder and the same handle of a writer exactly if they have the same bytes,
with any calls before and between. -/
theorem readings_agree {s t : String} {bs cs : Bytes} (hs : parse? s = some bs)
    (ht : parse? t = some cs) :
    bs.length = 32 ∧ normalize s = .ok (format bs) ∧
    (∀ ds : Bytes, ds.length = 32 → parse? (format ds) = some ds) ∧
    (normalize s = normalize t ↔ bs = cs) ∧
    (∀ b b' arg, Builder.Reaches .empty b → ((Builder.addObject s).run b).1 = .ok arg →
      Builder.Reaches ((Builder.addObject s).run b).2 b' →
      (∃ i, arg = .input i ∧ b'.inputs[i.toNat]? = some (.object (format bs))) ∧
      (((Builder.addObject t).run b').1 = .ok arg ↔ bs = cs)) ∧
    (∀ p w symbol, Writer.Reaches (.start p) w →
      ∃ handle w₁, Writer.object (.byId s) symbol w = .ok (handle, w₁) ∧
        ∀ w₂ symbol', Writer.Reaches w₁ w₂ → ∃ handle' w₃,
          Writer.object (.byId t) symbol' w₂ = .ok (handle', w₃) ∧ (handle' = handle ↔ bs = cs)) := by
  have hsfull := Builder.fullAddress_of_parse? hs
  have htfull := Builder.fullAddress_of_parse? ht
  rw [← format_inj]
  refine ⟨length_of_parse? hs, normalize_of_parse? hs, fun ds => parse?_format, ?_, ?_, ?_⟩
  · rw [normalize_of_parse? hs, normalize_of_parse? ht, Except.ok.injEq]
  · intro b b' arg hb hrun hlater
    exact (hb.keeps .empty).sound.addObject_again hsfull htfull hrun hlater
  · intro p w symbol hw
    have hstart : Lowering.ShowsObjects (.start p) := fun _ _ h => by cases h
    exact Writer.object_again (hw.keeps hstart).shows hsfull htfull symbol

/-- One address in two spellings, the first with blanks, a zero in front and capitals. -/
theorem readings_agree_spellings :
    let bs : Bytes := List.replicate 31 0 ++ [0xAB]
    parse? "\u3000 0X0Ab\n" = some bs ∧ parse? "ab" = some bs ∧
      normalize "\u3000 0X0Ab\n" = normalize "ab" ∧
      ((Builder.addObject "ab").run ((Builder.addObject "\u3000 0X0Ab\n").run .empty).2).1 =
        .ok (.input 0) := by
  intro bs
  have hs : parse? "\u3000 0X0Ab\n" = some bs := by decide
  have ht : parse? "ab" = some bs := by decide
  obtain ⟨-, -, -, hnormal, hbuilder, -⟩ := readings_agree hs ht
  have hrun : ((Builder.addObject "\u3000 0X0Ab\n").run .empty).1 = .ok (.input 0) := by
    simp only [Builder.run_addObject, Builder.fullAddress_of_parse? hs, Builder.empty,
      List.findIdx?_toArray, List.findIdx?_nil, Builder.run_pushInput]
    rfl
  exact ⟨hs, ht, hnormal.mpr rfl, (hbuilder _ _ _ .refl hrun .refl).2.mpr rfl⟩

end Address

end TxGraph
