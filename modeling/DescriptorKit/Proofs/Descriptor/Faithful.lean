import DescriptorKit.Proofs.Descriptor.Current
import DescriptorKit.Proofs.Message.Returned
import DescriptorKit.Proofs.Reparse

/-!
Descriptors of a schema that agrees with the built-in one. What such a schema wrote, read and
written by the built-in schema in between, it reads as it was.
-/
namespace DescriptorKit
open Wire Payload Message

namespace Descriptor
open Bundled

variable {d d₀ e : Descriptor} {S : Schema} {t u w : MessageType} {f : Field} {bytes : Bytes}
  {m : Message} {k n : Nat}

/-- The message was read by a reader that leaves the deepest levels of nesting out. -/
def Shallow (d : Descriptor) (spare : Nat) : Prop :=
  ∃ depth b, depth + spare = maxDepth ∧ Fills d.schema .lossless depth d.type [] b d.message

/-- A descriptor of a schema that agrees with the built-in one, and that nothing is lost by: its
types are read again as they were written, with as many levels to spare as that takes, those of
descriptors have no oneofs, and that of files has no groups. -/
structure Faithful (d : Descriptor) : Prop where
  orderly : ∃ spare D, d.Shallow spare ∧ d.schema.Orderly spare D ∧ D d.type ∧
    ∀ {t u}, D t → Schema.Counterpart d.schema descriptorSchema t u → ∀ n, Calm d.schema t n
  groupless : ∀ {f n}, d.schema.field? d.type n = some f → ∀ type, f.kind ≠ .group type
  mirrors : d.schema.Mirrors descriptorSchema

/-- What is written of the descriptor fits into lengths, once the built-in schema has read it. -/
def Short (d : Descriptor) : Prop :=
  ∀ m, Message.decode descriptorSchema .lossless fileType d.encode = .ok m →
    m.encode.length < 2 ^ 64

theorem decode_lossless_iff :
    Message.decode S .lossless t bytes = .ok m ↔ Fills S .lossless maxDepth t [] bytes m := by
  rw [decode_eq_ok_iff]
  exact ⟨fun ⟨_, h, he⟩ => he ▸ h, fun h => ⟨m, h, rfl⟩⟩

theorem decode_inv (h : decode bytes = .ok d) :
    ∃ m typed, d = ⟨descriptorSchema, fileType, m, typed⟩ ∧
    Fills descriptorSchema .lossless maxDepth fileType [] bytes m ∧
    readTyped m.encode = .ok typed := by
  obtain ⟨m, hm, h⟩ := bind_eq_ok_iff.mp h
  obtain ⟨typed, htyped, rfl⟩ := ofMessage_eq_ok_iff.mp h
  exact ⟨m, typed, rfl, decode_lossless_iff.mp hm, htyped⟩

theorem reread_inv (h : d₀.reread S t = .ok d) :
    ∃ m, d = { d₀ with schema := S, type := t, message := m } ∧
    Fills S .lossless maxDepth t [] d₀.encode m := by
  obtain ⟨m, hm, he⟩ := bind_eq_ok_iff.mp h
  exact ⟨m, (Except.ok.inj he).symm, decode_lossless_iff.mp hm⟩

theorem counterpart_fileType (ht : S.message? fileTypeName = some t) :
    Schema.Counterpart S descriptorSchema t fileType :=
  ⟨fileTypeName, ht, message?_fileType⟩

/-- A descriptor of the built-in schema is read as it was written. -/
theorem decode_encode (h : decode bytes = .ok d) (hlen : d.encode.length < 2 ^ 64) :
    decode d.encode = .ok d := by
  obtain ⟨m, typed, rfl, hm, htyped⟩ := decode_inv h
  have hself : Fills descriptorSchema .lossless maxDepth fileType [] (Value.encodeSlots m) m :=
    fills_again descriptorSchema_regular (descriptorSchema_simple.orderly 0) fileType_mem hm hlen
  exact bind_eq_ok_iff.mpr ⟨m, decode_lossless_iff.mpr hself,
    ofMessage_eq_ok_iff.mpr ⟨typed, htyped, rfl⟩⟩

/-- Nothing is lost by a descriptor of the built-in schema. -/
theorem faithful_of_decode (h : decode bytes = .ok d) : d.Faithful := by
  obtain ⟨m, typed, rfl, hm, -⟩ := decode_inv h
  exact ⟨⟨0, _, ⟨maxDepth, bytes, rfl, hm⟩, descriptorSchema_simple.orderly 0, fileType_mem,
    fun ht _ n _ hf => descriptorSchema_simple.oneof ht hf⟩,
    fun hf => descriptorSchema_simple.group fileType_mem hf, mirrors_self⟩

/-- Messages in messages of types that a part of the built-in schema declares are of such types. -/
theorem exists_counterpart (hS : isPart S = true) (hc : Schema.Counterpart S descriptorSchema t u)
    (hf : S.field? t n = some f) (hw : S.messageOf? f = some w) :
    ∃ v, Schema.Counterpart S descriptorSchema w v := by
  obtain ⟨g, hg, hsame⟩ := exists_same_of_isPart hS hc hf
  obtain ⟨type, hk | hk, htype⟩ := Schema.nested_of_messageOf? hw
  · obtain ⟨v, hv⟩ := Option.isSome_iff_exists.mp
      (message?_isSome hc.right hg (hsame.kind.symm.trans hk))
    exact ⟨v, type, htype, hv⟩
  · exact absurd (hsame.kind.symm.trans hk) (descriptorSchema_simple.group hc.right hg type)

theorem orderly_of_isPart (hS : isPart S = true) :
    S.Orderly 0 fun t => ∃ u, Schema.Counterpart S descriptorSchema t u where
  mem := fun ⟨_, hc⟩ => hc.left
  presence := by
    rintro t f n ⟨u, hc⟩ hf hr
    obtain ⟨g, hg, hsame⟩ := exists_same_of_isPart hS hc hf
    exact hsame.presence.trans
      (descriptorSchema_simple.presence hc.right hg (hsame.repeated.symm.trans hr))
  inner := fun ⟨_, hc⟩ hf _ hw => exists_counterpart hS hc hf hw
  entry := by
    rintro t u f n ⟨v, hc⟩ hf hmap
    obtain ⟨g, -, hsame⟩ := exists_same_of_isPart hS hc hf
    simp [hsame.map] at hmap

/-- Nothing is lost by a descriptor of a schema that declares a part of the built-in one, as an
older one does. -/
theorem faithful_of_isPart (hS : isPart S = true) (ht : S.message? fileTypeName = some t)
    (h : d₀.reread S t = .ok d) : d.Faithful := by
  obtain ⟨m, rfl, hm⟩ := reread_inv h
  have hc := counterpart_fileType ht
  refine ⟨⟨0, _, ⟨maxDepth, _, rfl, hm⟩, orderly_of_isPart hS, ⟨_, hc⟩, fun _ hc n f hf => ?_⟩,
    fun hf type hk => ?_, mirrors_of_isPart hS⟩
  · obtain ⟨g, -, hsame⟩ := exists_same_of_isPart hS hc hf
    exact hsame.oneof
  · obtain ⟨g, hg, hsame⟩ := exists_same_of_isPart hS hc hf
    exact descriptorSchema_simple.group fileType_mem hg type (hsame.kind.symm.trans hk)

theorem short_of_decode (h : decode bytes = .ok d) (hlen : d.encode.length < 2 ^ 64) : d.Short := by
  intro m hm
  obtain ⟨m', hm', he⟩ := bind_eq_ok_iff.mp (decode_encode h hlen)
  obtain rfl := Except.ok.inj (hm.symm.trans hm')
  obtain ⟨typed, -, rfl⟩ := ofMessage_eq_ok_iff.mp he
  exact hlen

theorem decode_synced (h : decode bytes = .ok d) : readTyped d.encode = .ok d.typed := by
  obtain ⟨m, typed, rfl, -, htyped⟩ := decode_inv h
  exact htyped

/-- A typed message that goes with a descriptor goes with what a schema reads from it, too, where
the schema agrees with the built-in one. -/
theorem reread_synced (h₀ : readTyped d₀.encode = .ok d₀.typed) (hS : S.Regular)
    (hM : S.Mirrors descriptorSchema) (ht : S.message? fileTypeName = some t)
    (h : d₀.reread S t = .ok d) (hlen : d.encode.length < 2 ^ 64) :
    readTyped d.encode = .ok d.typed := by
  obtain ⟨m, rfl, hm⟩ := reread_inv h
  exact readTyped_eq_ok_iff.mpr <| (rewrites_typed hS hM).rereads hS descriptorSchema_regular
    (counterpart_fileType ht) trivial hm (readTyped_eq_ok_iff.mp h₀) hlen

/-- A descriptor that a schema has read again is the one that the schema reads again after the
descriptor was written. -/
theorem reread_encode (h₀ : decode bytes = .ok d₀) (hS : S.Regular)
    (ht : S.message? fileTypeName = some t) (h : d₀.reread S t = .ok d) (hf : d.Faithful)
    (hlen : d.encode.length < 2 ^ 64) (hs : d.Short) :
    ∃ e, decode d.encode = .ok e ∧ e.typed = d.typed ∧ e.reread S t = .ok d := by
  obtain ⟨m₀, typed, rfl, hm₀, htyped⟩ := decode_inv h₀
  obtain ⟨m, rfl, hm⟩ := reread_inv h
  obtain ⟨⟨spare, D, ⟨depth, b, hdepth, hb⟩, hD, hDt, hcalm⟩, -, hmirrors⟩ := hf
  have hsynced := reread_synced (decode_synced h₀) hS hmirrors ht h hlen
  obtain ⟨m', hm', hread⟩ := exists_decode_of_readTyped hsynced
  have hshort := hs m' hm'
  have hself : Fills S .lossless maxDepth t [] (Value.encodeSlots m) m :=
    hdepth ▸ fills_again hS hD hDt hb hlen
  -- what the built-in schema wrote in between is not what was there, but reads as the same
  have hback : Fills S .lossless maxDepth t [] (Value.encodeSlots m') m :=
    (hmirrors.rewrites hS descriptorSchema_regular hD descriptorSchema_simple hcalm).rereads
      descriptorSchema_regular hS ⟨fileType_mem, hDt, counterpart_fileType ht⟩
      ⟨hlen, bytes, m₀, m, hm₀, hm, rfl⟩ (decode_lossless_iff.mp hm') hself hshort
  refine ⟨⟨descriptorSchema, fileType, m', typed⟩, ?_, rfl, ?_⟩
  · exact bind_eq_ok_iff.mpr ⟨m', hm', ofMessage_eq_ok_iff.mpr ⟨typed, hread hshort, rfl⟩⟩
  · exact bind_eq_ok_iff.mpr ⟨m, decode_lossless_iff.mpr hback, rfl⟩

section Reserved

/-- A number that no record of some bytes has, no record has of the message read from them. -/
theorem not_mem_numbers_of_decode (h : decode bytes = .ok d) (hlen : bytes.length < 2 ^ 64)
    (hc : Records.Clear k bytes) : k ∉ allNumbers (Value.recordsOf d.message) := by
  obtain ⟨m, typed, rfl, hm, -⟩ := decode_inv h
  obtain ⟨rs, hparsed, hsteps⟩ := hm.exists_records descriptorSchema_regular fileType_mem
  have hgroup : ∀ f n, descriptorSchema.field? fileType n = some f → ∀ type, f.kind ≠ .group type :=
    fun f n hf => descriptorSchema_simple.group fileType_mem hf
  exact fun hk => (Records.clear_iff hparsed hlen).mp hc (Steps.allNumbers_subset hgroup hsteps hk)

theorem not_mem_numbers_of_reread (hd : d₀.Sound) (hf : d.Faithful) (h : d₀.reread S t = .ok d)
    (hk : k ∉ allNumbers (Value.recordsOf d₀.message)) :
    k ∉ allNumbers (Value.recordsOf d.message) := by
  obtain ⟨m, rfl, hm⟩ := reread_inv h
  have hsteps := (fills_encode_iff hd.regular hd.type_mem hd.typed).mp hm
  exact fun hm => hk (Steps.allNumbers_subset (fun f n h => hf.groupless h) hsteps hm)

/-- Where the message has no record of the number, what is written of it has none either. -/
theorem clear_encode (hd : d.Sound) (he : decode d.encode = .ok e)
    (hlen : d.encode.length < 2 ^ 64) (hk : k ∉ allNumbers (Value.recordsOf d.message)) :
    Records.Clear k d.encode := by
  obtain ⟨m', -, -, hm', -⟩ := decode_inv he
  have hsteps := (fills_encode_iff hd.regular hd.type_mem hd.typed).mp hm'
  have hparsed := parsed_of_steps descriptorSchema_regular fileType_mem hsteps
  have hencode : d.encode = encodeAll (Value.recordsOf d.message) :=
    Value.encodeSlots_eq_records hd.regular d.type hd.type_mem d.message hd.typed
  rw [hencode] at hlen ⊢
  exact (Records.clear_iff hparsed hlen).mpr hk

end Reserved

section Rereads

open Reparse

/-- What a schema makes of a descriptor, it makes of what was written of that. -/
theorem exists_rereads (h₀ : decode bytes = .ok d₀) (hS : S.Regular) (h : Rereads S d₀ d)
    (hf : d.Faithful) (hlen : d.encode.length < 2 ^ 64) (hs : d.Short) :
    ∃ e, decode d.encode = .ok e ∧ e.typed = d.typed ∧ Rereads S e d := by
  cases ht : S.message? fileTypeName with
  | none =>
    obtain rfl := h.same ht
    exact ⟨d, decode_encode h₀ hlen, rfl, h⟩
  | some t =>
    obtain ⟨e, he, htyped, hread⟩ := reread_encode h₀ hS ht (h.read ht) hf hlen hs
    refine ⟨e, he, htyped, fun hn => by simp [ht] at hn, fun ht' => ?_⟩
    rwa [← Option.some.inj (ht.symm.trans ht')]

/-- Bytes with no record of a number are written without one again. -/
theorem clear_of_rereads (h₀ : decode bytes = .ok d₀) (hb : bytes.length < 2 ^ 64)
    (hc : Records.Clear k bytes) (hS : S.Regular) (h : Rereads S d₀ d) (hf : d.Faithful)
    (hlen : d.encode.length < 2 ^ 64) (he : decode d.encode = .ok e) :
    Records.Clear k d.encode := by
  have hnot := not_mem_numbers_of_decode h₀ hb hc
  have hsound := (decode_sound h₀).1
  cases ht : S.message? fileTypeName with
  | none =>
    obtain rfl := h.same ht
    exact clear_encode hsound he hlen hnot
  | some t =>
    have hread := h.read ht
    exact clear_encode (reread_sound hS (Schema.mem_of_message? ht).1 hsound hread).1 he hlen
      (not_mem_numbers_of_reread hsound hf hread hnot)

end Rereads

end Descriptor
end DescriptorKit
