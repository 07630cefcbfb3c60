import DescriptorKit.Proofs.Descriptor.Reached
import DescriptorKit.Proofs.Managed.Run
import DescriptorKit.Proofs.Message.Deeper

/-!
Descriptors whose typed message is never wrong. A change that fails may leave what no typed reader
gets through; where one does, it finds what the typed message says.
-/
namespace DescriptorKit.Descriptor
open Bundled Managed Message

variable {d e : Descriptor} {S : Schema} {t : MessageType} {bytes : Bytes} {typed : Message}
  {α : Type}

/-- Where a typed reader gets through what is written of the descriptor, it finds the typed
message. -/
def Honest (d : Descriptor) : Prop := ∀ typed, readTyped d.encode = .ok typed → d.typed = typed

theorem honest_of_synced (h : readTyped d.encode = .ok d.typed) : d.Honest :=
  fun _ ht => Except.ok.inj (h.symm.trans ht)

/-- Whatever becomes of a change, it leaves a typed message that is not wrong. -/
theorem modify_honest (d : Descriptor) (change : Message → Message × Except Breach α) :
    (d.modify change).1.Honest := by
  rcases d.modify_cases change with ⟨f, hf, hm⟩ | ⟨typed, htyped, hm⟩
  · rw [hm]
    exact fun _ ht => by cases hf.symm.trans ht
  · rw [hm]
    exact honest_of_synced htyped

theorem removeLocations_honest (h : d.Honest) (paths : List (List Int32)) :
    (d.removeLocations paths).1.Honest := by
  unfold removeLocations
  split
  · exact h
  · split
    · exact h
    · exact modify_honest d _

/-- What is written of a descriptor has a length. -/
structure Writable (d : Descriptor) : Prop where
  length : d.encode.length < 2 ^ 64
  typed_length : d.typed.encode.length < 2 ^ 64

/-- Where the schema agrees with the built-in one, a typed reader gets through what is written, and
finds the typed message. -/
def Upright (d : Descriptor) : Prop :=
  d.schema.Mirrors descriptorSchema → readTyped d.encode = .ok d.typed

/-- The message is one of its type, and where the schema agrees with the built-in one, the typed
message is not wrong. -/
structure Told (d : Descriptor) : Prop where
  sound : d.Sound
  honest : d.schema.Mirrors descriptorSchema → d.Honest

theorem Upright.told (h : d.Upright) (hs : d.Sound) : d.Told :=
  ⟨hs, fun hm => honest_of_synced (h hm)⟩

theorem decode_upright (h : decode bytes = .ok d) : d.Upright := fun _ => decode_synced h

theorem ofTyped_upright (hm : readTyped bytes = .ok typed) (h : ofTyped typed = .ok d)
    (hw : d.Writable) : d.Upright := by
  have htyped : d.typed = typed := by
    obtain ⟨m, -, he⟩ := bind_eq_ok_iff.mp h
    rw [← Except.ok.inj he]
  exact fun _ => ofTyped_synced hm h (htyped ▸ hw.typed_length) hw.length

/-- A descriptor that was just read can be read, too, when it was read again next to others. -/
theorem apply_upright {ds es : List Descriptor} (hds : ∀ d ∈ ds, ∃ bytes, decode bytes = .ok d)
    (h : Reparse.apply ds = .ok es) (he : e ∈ es) (hw : e.Writable) : e.Sound ∧ e.Upright := by
  obtain ⟨P, hP, hall⟩ := Reparse.apply_eq_ok_iff.mp h
  obtain ⟨d, hd, hrereads⟩ := exists_of_forall₂ hall he
  obtain ⟨bytes, hdecode⟩ := hds d hd
  cases ht : P.schema.message? fileTypeName with
  | none => exact hrereads.same ht ▸ ⟨(decode_sound hdecode).1, decode_upright hdecode⟩
  | some t =>
    have hread := hrereads.read ht
    have hregular := Reparse.pool_regular hP
    obtain ⟨hsound, -, hschema, -⟩ :=
      reread_sound hregular (Schema.mem_of_message? ht).1 (decode_sound hdecode).1 hread
    exact ⟨hsound, fun hm =>
      reread_synced (decode_synced hdecode) hregular (hschema ▸ hm) ht hread hw.length⟩

theorem Told.carried (h : d.Told) (hf : d.Follows e) (hh : d.Honest → e.Honest) : e.Told :=
  ⟨hf.sound h.sound, fun hm => hh (h.honest (hf.schema ▸ hm))⟩

theorem told_carries : Carries fun d e => d.Told → e.Told where
  refl _ := id
  trans h h' := h' ∘ h
  setFileOption d name s h := h.carried (setFileOption_follows d name s) fun _ => modify_honest d _
  setJsType d _ code hp h := h.carried (setJsType_follows d code hp) fun _ => modify_honest d _
  removeLocations d paths h :=
    h.carried (removeLocations_follows d paths) fun hd => removeLocations_honest hd paths

theorem modify_upright (change : Message → Message × Except Breach α) :
    Outcome (fun d e => d.Upright → e.Upright) (fun _ _ => True) d (d.modify change) := by
  have hsynced := modify_synced_iff (d := d) change
  generalize d.modify change = c at hsynced ⊢
  obtain ⟨e, r⟩ := c
  cases r with
  | ok a => exact fun _ _ => hsynced.mpr fun f he => by cases he
  | error e => trivial

/-- A change that succeeds leaves what can be read. -/
theorem upright_conducts : Conducts (fun d e => d.Upright → e.Upright) fun _ _ => True where
  refl _ := id
  stop _ := trivial
  trans h h' := h' ∘ h
  trans_stop _ _ := trivial
  setFileOption d name s := modify_upright _
  setJsType d _ code _ := modify_upright _
  removeLocations d paths := by
    unfold removeLocations
    split
    · exact id
    · split
      · exact id
      · exact modify_upright _

/-- A property of descriptors that is there wherever they come from. Only some descriptors have to
be looked at. -/
structure Inborn (W Q : Descriptor → Prop) : Prop where
  decode : ∀ {bytes d}, Descriptor.decode bytes = .ok d → Q d
  ofTyped : ∀ {bytes typed d},
    readTyped bytes = .ok typed → Descriptor.ofTyped typed = .ok d → W d → Q d
  apply : ∀ {ds es e}, (∀ d ∈ ds, ∃ bytes, Descriptor.decode bytes = .ok d) →
    Reparse.apply ds = .ok es → e ∈ es → W e → Q e

/-- Such a property that stays when a descriptor is changed. -/
structure Lasting (W Q : Descriptor → Prop) : Prop extends Inborn W Q where
  carries : Carries fun d e => Q d → Q e

theorem upright_inborn : Inborn Writable Upright :=
  ⟨decode_upright, ofTyped_upright, fun hds h he hw => (apply_upright hds h he hw).2⟩

theorem told_lasting : Lasting Writable Told where
  decode h := (decode_upright h).told (decode_sound h).1
  ofTyped hm h hw := (ofTyped_upright hm h hw).told (ofTyped_sound hm h).1
  apply hds h he hw := (apply_upright hds h he hw).2.told (apply_upright hds h he hw).1
  carries := told_carries

/-- A typed reader gets through the descriptor where it lies in another message, one level down. -/
def Enclosable (d : Descriptor) : Prop :=
  ∃ m, Fills descriptorSchema .typed (maxDepth - 1) fileType [] d.encode m

/-- One level down, too, a typed reader finds nothing but the typed message. -/
theorem Honest.fills_iff (h : d.Honest) :
    Fills descriptorSchema .typed (maxDepth - 1) fileType [] d.encode typed ↔
      d.Enclosable ∧ typed = d.typed := by
  have htyped : ∀ m, Fills descriptorSchema .typed (maxDepth - 1) fileType [] d.encode m →
      m = d.typed := fun m hm => (h m (readTyped_eq_ok_iff.mpr hm.deeper)).symm
  constructor
  · exact fun hm => ⟨⟨typed, hm⟩, htyped typed hm⟩
  · rintro ⟨⟨m, hm⟩, rfl⟩
    exact htyped m hm ▸ hm

end DescriptorKit.Descriptor
