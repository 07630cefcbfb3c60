import DescriptorKit.Proofs.Descriptor.Faithful
import DescriptorKit.Proofs.Image.Formed
import DescriptorKit.Proofs.Message.Lacks

/-!
Descriptors without a record of the reserved number. They come from bytes without one, and neither
reading them again nor changing them brings one in, unless the schema keeps options there.
-/
namespace DescriptorKit.Descriptor
open Wire Payload Bundled Message

variable {d e : Descriptor} {S : Schema} {t : MessageType} {bytes : Bytes} {typed : Message}
  {P : Field → Prop} {ds es : List Descriptor}

/-- A descriptor that holds nothing under the reserved number. -/
structure Unmarked (d : Descriptor) : Prop where
  sound : d.Sound
  number_ne : ∀ s ∈ d.message, s.number ≠ Storage.metadataNumber

theorem Unmarked.lacks (h : d.Unmarked) : Lacks Storage.metadataNumber d.encode :=
  lacks_encode h.sound.regular h.sound.type_mem h.sound.typed h.number_ne

section Origin

theorem unmarked_of_decode (hb : Lacks Storage.metadataNumber bytes) (h : decode bytes = .ok d) :
    d.Unmarked := by
  have hsound := (decode_sound h).1
  obtain ⟨m, typed, rfl, hm, -⟩ := decode_inv h
  exact ⟨hsound, number_ne_of_fills descriptorSchema_regular fileType_mem hb hm⟩

/-- Before the descriptor of a stored file is read, the metadata is split off. -/
theorem unmarked_of_decodeFile {stored : Descriptor × Message}
    (h : Storage.decodeFile bytes = .ok stored) (hlen : bytes.length < 2 ^ 64) :
    stored.1.Unmarked := by
  obtain ⟨rest, extracted, hsplit, hd⟩ := Storage.decodeFile_inv h
  have hrest := Records.length_le_of_split hsplit
  exact unmarked_of_decode (lacks_of_clear (Records.clear_of_split hsplit) (by omega)) hd

/-- No field of descriptors has the reserved number. -/
theorem field?_metadataNumber : descriptorSchema.field? fileType Storage.metadataNumber = none := by
  have h : (descriptorSchema.field? fileType Storage.metadataNumber).isNone = true := by
    decide +kernel
  exact Option.isNone_iff_eq_none.mp h

theorem unmarked_of_ofTyped (hm : readTyped bytes = .ok typed) (h : ofTyped typed = .ok d) :
    d.Unmarked := by
  have hsound := (ofTyped_sound hm h).1
  have htyped := (typed_shaped hm).typed
  obtain ⟨rs, -, hsteps⟩ :=
    (readTyped_eq_ok_iff.mp hm).exists_records descriptorSchema_regular fileType_mem
  have hnumber : ∀ s ∈ typed, s.number ≠ Storage.metadataNumber := by
    intro s hs he
    obtain ⟨f, v, rfl⟩ := Steps.known_of_typed hsteps (by simp) s hs
    have hf := (htyped.value hs).1
    rw [show f.number = _ from he, field?_metadataNumber] at hf
    cases hf
  have hlacks := lacks_encode descriptorSchema_regular fileType_mem htyped hnumber
  obtain ⟨m, hdecode, he⟩ := bind_eq_ok_iff.mp h
  obtain rfl := Except.ok.inj he
  have hfills := decode_lossless_iff.mp hdecode
  exact ⟨hsound, number_ne_of_fills descriptorSchema_regular fileType_mem hlacks hfills⟩

theorem Unmarked.reread (hd : d.Unmarked) (hS : S.Regular) (ht : t ∈ S.messages)
    (h : d.reread S t = .ok e) : e.Unmarked := by
  have hsound := (reread_sound hS ht hd.sound h).1
  obtain ⟨m, rfl, hm⟩ := reread_inv h
  exact ⟨hsound, number_ne_of_fills hS ht hd.lacks hm⟩

theorem unmarked_of_apply (hds : ∀ d ∈ ds, d.Unmarked) (h : Reparse.apply ds = .ok es) :
    ∀ e ∈ es, e.Unmarked := by
  intro e he
  rcases Reparse.apply_cases h with rfl | ⟨S, t, hS, ht, hall⟩
  · exact hds e he
  · obtain ⟨d, hmem, hr⟩ := exists_of_forall₂ hall he
    exact (hds d hmem).reread hS ht hr

end Origin

section Changes

/-- The type does not declare options under the reserved number. -/
def OptionsApart (t : MessageType) : Prop :=
  ∀ f ∈ t.fields, f.name = "options" → f.number ≠ Storage.metadataNumber

/-- A descriptor that came from another one: it holds nothing under the reserved number where the
other one held nothing there, unless options belong there. -/
structure Spares (d e : Descriptor) : Prop where
  type : e.type = d.type
  unmarked : OptionsApart d.type → d.Unmarked → e.Unmarked

theorem Spares.refl (d : Descriptor) : Spares d d := ⟨rfl, fun _ h => h⟩

/-- Edits of fields of other numbers. -/
theorem modify_spares {α : Type} {change : Message → Message × Except Breach α}
    (h : d.Sound → Edits d.schema d.type P d.message (change d.message).1)
    (hp : OptionsApart d.type → d.Unmarked → ∀ f ∈ d.type.fields, P f →
      f.number ≠ Storage.metadataNumber) : Spares d (d.modify change).1 := by
  have hmessage : OptionsApart d.type → d.Unmarked → ∀ typed,
      Unmarked { d with message := (change d.message).1, typed } := by
    intro hapart hd typed
    have hedits := h hd.sound
    exact ⟨⟨hd.sound.regular, hd.sound.type_mem, hedits.sorted hd.sound.sorted,
      hedits.typed hd.sound.regular hd.sound.type_mem hd.sound.typed⟩,
        hedits.number_ne (hp hapart hd) hd.number_ne⟩
  rcases d.modify_cases change with ⟨f, -, hmod⟩ | ⟨typed, -, hmod⟩ <;> rw [hmod]
  · exact ⟨rfl, fun hapart hd => hmessage hapart hd d.typed⟩
  · exact ⟨rfl, fun hapart hd => hmessage hapart hd typed⟩

theorem setFileOption_spares (d : Descriptor) (name : String) (s : Scalar) :
    Spares d (d.setFileOption name s).1 :=
  modify_spares (fun hd => setOption_edits hd.regular hd.type_mem hd.typed _ _ _ _)
    fun hapart _ f hf hn => hapart f hf hn

theorem setJsType_spares (d : Descriptor) {path : List Int32} (code : Int32)
    (hp : path.head? = some 4 ∨ path.head? = some 7) : Spares d (d.setJsType path code).1 := by
  refine modify_spares (fun hd => updateAt_edits hd.regular _ _ _ _ _ path _ _ hd.type_mem hd.typed)
    fun _ _ f _ hf => ?_
  have hnumber := number_of_heads hp hf
  rw [Storage.metadataNumber]
  omega

/-- Locations are dropped where there are any, so their field is there already. -/
theorem removeLocations_spares (d : Descriptor) (paths : List (List Int32)) :
    Spares d (d.removeLocations paths).1 := by
  unfold removeLocations
  split
  · exact .refl d
  · rename_i f hf
    split
    · exact .refl d
    · rename_i hthere
      have hsome : (d.message.get? f).isSome := by
        rw [← Option.not_isNone]
        simp only [not_or, Bool.not_eq_true] at hthere
        rw [hthere.2]
        rfl
      obtain ⟨s, hs, hholds⟩ := get?_isSome_iff.mp hsome
      refine modify_spares
        (fun hd => dropLocations_edits hd.regular hd.type_mem hd.typed hf paths) ?_
      rintro - hd _ - rfl
      rw [← Slot.number_of_holds hholds]
      exact hd.number_ne s hs

theorem spares_carries : Managed.Carries Spares where
  refl := .refl
  trans h h' := ⟨h'.type.trans h.type, fun hapart hd =>
    h'.unmarked (h.type ▸ hapart) (h.unmarked hapart hd)⟩
  setFileOption := setFileOption_spares
  setJsType := setJsType_spares
  removeLocations := removeLocations_spares

end Changes

end DescriptorKit.Descriptor
