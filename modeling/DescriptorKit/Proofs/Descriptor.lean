import DescriptorKit.Proofs.Bundled
import DescriptorKit.Proofs.Except

/-!
Descriptors: what the typed message tells of a file is what a typed reader finds in the message
beside it, also after the message was read again by a schema that keeps the fields in question.
-/
namespace DescriptorKit
open Wire Payload Bundled

namespace Message

variable {S : Schema} {t : MessageType} {g : Field} {m k : Message} {n : Nat}

theorem at?_eq_get? (hn : g.number = n) (hg : g.isExtension = false) (m : Message) :
    m.at? n = m.get? g := by
  induction m with
  | nil => rfl
  | cons s m ih =>
    cases s with
    | known f v =>
      rw [at?, Message.get?, ih, Slot.holds, hn, hg]
      cases f.isExtension <;> simp
    | unknown k p => exact ih

/-- The text among the values that a field holds. -/
def textOf : List Value → String
  | [.scalar (.string s)] => s
  | _ => ""

theorem textAt_eq (hn : g.number = n) (hg : g.isExtension = false) (hr : g.repeated = false)
    (m : Message) : m.textAt n = textOf (held g m) := by
  rw [textAt, textAt?, scalarAt?, at?_eq_get? hn hg, held, hr, if_neg Bool.false_ne_true]
  cases m.get? g with
  | none => rfl
  | some v =>
    cases v with
    | scalar s =>
      cases s with
      | string s =>
        by_cases hs : s = ""
        · subst hs
          rfl
        · simp [Value.scalar?, Value.isZero, Scalar.isZero, hs, textOf]
      | _ =>
        simp only [Option.bind_some, Value.scalar?]
        split <;> rfl
    | message k => rfl
    | many vs =>
      simp only [Option.bind_some, Value.scalar?]
      split <;> rfl

theorem manyAt_eq (hn : g.number = n) (hg : g.isExtension = false) (hr : g.repeated = true)
    (m : Message) : m.manyAt n = held g m := by
  rw [manyAt, at?_eq_get? hn hg, held, hr]
  rfl

theorem at?_congr (h : k.only n = m.only n) : k.at? n = m.at? n := by
  rw [← at?_only, h, at?_only]

/-- The messages in a repeated field, one by one. -/
theorem messagesAt_eq {ks : List Message} (hn : g.number = n) (hg : g.isExtension = false)
    (hr : g.repeated = true) (hv : m.valuesOf g = ks.map Value.message) : m.messagesAt n = ks := by
  have hmessage : Value.message? ∘ Value.message = some := rfl
  rw [messagesAt, manyAt_eq hn hg hr, held, if_pos hr, hv, List.filterMap_map, hmessage,
    List.filterMap_some]

end Message

namespace Descriptor
open Message

variable {d e : Descriptor} {g : Field} {m k typed : Message} {bytes : Bytes} {S : Schema}
  {t : MessageType}

theorem readTyped_eq_ok_iff : readTyped bytes = .ok typed ↔
    Fills descriptorSchema .typed maxDepth fileType [] bytes typed := by
  rw [readTyped, decode_eq_ok_iff]
  have hfinish : ∀ m, Message.finish descriptorSchema .typed fileType m = m :=
    finish_of_none required_fileType
  constructor
  · rintro ⟨m, hm, he⟩
    rw [he, hfinish]
    exact hm
  · intro h
    exact ⟨typed, h, (hfinish typed).symm⟩

theorem typed_shaped (h : readTyped bytes = .ok typed) : Shaped descriptorSchema fileType typed :=
  decode_shaped descriptorSchema_regular (fun _ => descriptorSchema_fills) fileType_mem h

/-- The message is one of the type that goes with it. -/
structure Sound (d : Descriptor) : Prop where
  regular : d.schema.Regular
  type_mem : d.type ∈ d.schema.messages
  sorted : d.message.Sorted
  typed : Typed d.schema d.type d.message

/-- What a typed reader finds in a field of the message, the typed message holds there. -/
def Synced (d : Descriptor) (g : Field) : Prop :=
  ∀ k, Steps (readField descriptorSchema .typed maxDepth fileType) []
    (Value.recordsOf (d.message.only g.number)) k → held g k = held g d.typed

theorem held_only (g : Field) (m : Message) : held g (m.only g.number) = held g m := by
  rw [held, held, valuesOf, valuesOf, get?_only rfl]

/-- A message that was just read again is in step with what was read. -/
theorem synced_of_readTyped (hg : Declares g) (hS : S.Regular) (ht : t ∈ S.messages)
    (hm : Typed S t m) (h : readTyped m.encode = .ok typed) : Synced ⟨S, t, m, typed⟩ g := by
  intro k hk
  have hfills := readTyped_eq_ok_iff.mp h
  have honly := Fills.only hS ht hm hg.calm hfills
  rw [hk.unique honly, held_only]

theorem sound_of_decode (hS : S.Regular) (ht : t ∈ S.messages)
    (h : Message.decode S .lossless t bytes = .ok m) : Sorted m ∧ Typed S t m := by
  have := decode_shaped hS (fun h => by cases h) ht h
  exact ⟨this.sorted, this.typed⟩

theorem ofMessage_eq_ok_iff : ofMessage S t m = .ok d ↔
    ∃ typed, readTyped m.encode = .ok typed ∧ d = ⟨S, t, m, typed⟩ := by
  rw [ofMessage]
  cases readTyped m.encode with
  | error f => simp [bind, Except.bind]
  | ok typed => simp [bind, Except.bind, eq_comm]

theorem decodeAs_sound (hS : S.Regular) (ht : t ∈ S.messages) (h : decodeAs S t bytes = .ok d) :
    d.Sound ∧ ∀ g, Declares g → d.Synced g := by
  rw [decodeAs] at h
  cases hm : Message.decode S .lossless t bytes with
  | error f =>
    rw [hm] at h
    cases h
  | ok m =>
    rw [hm] at h
    obtain ⟨typed, htyped, rfl⟩ := ofMessage_eq_ok_iff.mp h
    obtain ⟨hs, hty⟩ := sound_of_decode hS ht hm
    exact ⟨⟨hS, ht, hs, hty⟩, fun g hg => synced_of_readTyped hg hS ht hty htyped⟩

theorem decode_sound (h : decode bytes = .ok d) : d.Sound ∧ ∀ g, Declares g → d.Synced g :=
  decodeAs_sound descriptorSchema_regular fileType_mem h

/-- The descriptor is held by the built-in schema. -/
structure Builtin (d : Descriptor) : Prop where
  schema : d.schema = descriptorSchema
  type : d.type = fileType

theorem decode_builtin (h : decode bytes = .ok d) : d.Builtin := by
  rw [decode, decodeAs] at h
  obtain ⟨m, -, h⟩ := bind_eq_ok_iff.mp h
  obtain ⟨typed, -, rfl⟩ := ofMessage_eq_ok_iff.mp h
  exact ⟨rfl, rfl⟩

/-- The built-in schema keeps what it declares. -/
theorem keeps_descriptorSchema (hg : Declares g) :
    Honours descriptorSchema fileType g.number g where
  undeclared := by
    intro h
    rw [hg.plain.field] at h
    cases h
  alike := by
    intro f hf
    rw [hg.plain.field] at hf
    obtain rfl := Option.some.inj hf
    exact ⟨rfl, rfl, rfl, hg.oneof⟩

/-- Reading by a schema that keeps a field what another message was written as. -/
theorem synced_of_decode (hg : Declares g) (hk : Honours S t g.number g) (hS : S.Regular)
    (ht : t ∈ S.messages) (he : e.Sound) (hs : e.Synced g)
    (h : Message.decode S .lossless t e.encode = .ok m) : Synced ⟨S, t, m, e.typed⟩ g := by
  intro k hkm
  obtain ⟨m', hfills, rfl⟩ := decode_eq_ok_iff.mp h
  have hshaped := hfills.shaped hS (fun h => by cases h) ht .nil
  have honly := Fills.only he.regular he.type_mem he.typed hk.calm hfills
  have hn : ∀ r ∈ Value.recordsOf (e.message.only g.number), r.1 = g.number := by
    intro r hr
    rw [Value.recordsOf_only] at hr
    simpa using (List.mem_filter.mp hr).2
  obtain ⟨k', hk', heq⟩ := hk.held_eq hS ht hg.plain hn hshaped honly hkm
  rw [heq]
  exact hs k' hk'

theorem reread_sound (hS : S.Regular) (ht : t ∈ S.messages) (hd : d.Sound)
    (h : d.reread S t = .ok e) : e.Sound ∧ e.typed = d.typed ∧ e.schema = S ∧ e.type = t ∧
      ∀ g, Declares g → Honours S t g.number g → d.Synced g → e.Synced g := by
  rw [reread] at h
  cases hm : Message.decode S .lossless t d.encode with
  | error f =>
    rw [hm] at h
    cases h
  | ok m =>
    rw [hm] at h
    obtain rfl := Except.ok.inj h
    obtain ⟨hs, hty⟩ := sound_of_decode hS ht hm
    exact ⟨⟨hS, ht, hs, hty⟩, rfl, rfl, rfl, fun g hg hk hsync =>
      synced_of_decode hg hk hS ht hd hsync hm⟩

/-- The descriptor of a typed message that was read at some time. -/
theorem ofTyped_sound (hm : readTyped bytes = .ok typed) (h : ofTyped typed = .ok d) :
    d.Sound ∧ ∀ g, Declares g → d.Synced g := by
  have hshaped := typed_shaped hm
  have he : Sound ⟨descriptorSchema, fileType, typed, typed⟩ :=
    ⟨descriptorSchema_regular, fileType_mem, hshaped.sorted, hshaped.typed⟩
  have hs : ∀ g, Declares g → Synced ⟨descriptorSchema, fileType, typed, typed⟩ g := by
    intro g hg k hk
    obtain ⟨vs, hvs, heq⟩ := tells_of_steps hg.plain (fun r hr => by
      rw [Value.recordsOf_only] at hr
      simpa using (List.mem_filter.mp hr).2) hk
    have hreg : g.Regular := descriptorSchema_regular.field fileType_mem hg.plain.field
    rw [heq, ← held_of_tells hg.plain hreg hshaped hvs]
    congr 1
    unfold held
    split <;> rfl
  rw [ofTyped] at h
  cases hm : Message.decode descriptorSchema .lossless fileType typed.encode with
  | error f =>
    rw [hm] at h
    cases h
  | ok m =>
    rw [hm] at h
    obtain rfl := Except.ok.inj h
    obtain ⟨hsorted, hty⟩ := sound_of_decode descriptorSchema_regular fileType_mem hm
    refine ⟨⟨descriptorSchema_regular, fileType_mem, hsorted, hty⟩, fun g hg => ?_⟩
    exact synced_of_decode hg (keeps_descriptorSchema hg) descriptorSchema_regular fileType_mem he
      (hs g hg) hm

end Descriptor
end DescriptorKit
