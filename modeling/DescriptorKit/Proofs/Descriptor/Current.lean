import DescriptorKit.Proofs.Bundled.Types
import DescriptorKit.Proofs.Descriptor
import DescriptorKit.Proofs.Message.Required

/-!
Descriptors that are read from what was written of them. The built-in schema reads whatever has a
typed message, and keeps all that the typed message tells.
-/
namespace DescriptorKit
open Wire Payload Message

namespace Bundled

/-- The full name of the only type of descriptors that requires something. -/
def namePart : String := "google.protobuf.UninterpretedOption.NamePart"

theorem descriptorSchema_namePart : ∀ t ∈ descriptorSchema.messages, ∀ f ∈ t.fields,
    (f.repeated = true → f.presence = false) ∧ (f.required = true → t.name = namePart) := by
  decide +kernel

/-- Descriptors have no groups, and what requires something is in a list. -/
theorem descriptorFile_namePart : ∀ s ∈ descriptorFile.sites, ∀ d ∈ s.decl.fields,
    d.type ≠ some .group ∧ (d.label = .repeated ∨ d.typeName = none ∨
      d.typeName ≠ some ("." ++ namePart) ∧ d.typeName ≠ some namePart) := by
  decide +kernel

theorem map_eq_false {t : MessageType} {f : Field} {n : Nat} (ht : t ∈ descriptorSchema.messages)
    (hf : descriptorSchema.field? t n = some f) : f.map = false :=
  Schema.field_of_field? (P := fun f => f.map = false) (Schema.field_map no_mapEntries) ht hf

/-- Each field of descriptors was declared. -/
theorem exists_decl {t : MessageType} {f : Field} {n : Nat} (ht : t ∈ descriptorSchema.messages)
    (hf : descriptorSchema.field? t n = some f) : ∃ s ∈ descriptorFile.sites, ∃ d ∈ s.decl.fields,
      f = Schema.field (Schema.contextOf [descriptorFile]) descriptorFile.isProto3 none d := by
  obtain ⟨file, hfile, ht⟩ := List.mem_flatMap.mp ht
  obtain rfl := List.mem_singleton.mp hfile
  obtain ⟨s, hs, rfl⟩ := List.mem_map.mp ht
  have hmem := (Schema.messageType_fields_perm _ _ s).mem_iff.mp (mem_of_field? hf)
  obtain ⟨d, hd, rfl⟩ := List.mem_map.mp hmem
  exact ⟨s, hs, d, hd, rfl⟩

theorem kindOf_group {C : Schema.Context} {d : FieldDecl} {type : String}
    (h : Schema.kindOf C d = .group type) : d.type = some .group := by
  unfold Schema.kindOf at h
  split at h
  · cases h
  · cases h
  · dsimp only at h
    split at h
    · cases h
    · split at h
      · assumption
      · cases h

theorem kindOf_message {C : Schema.Context} {d : FieldDecl} {type : String}
    (h : Schema.kindOf C d = .message type) :
    ∃ name, d.typeName = some name ∧ absolute name = type := by
  unfold Schema.kindOf at h
  split at h
  · cases h
  · cases h
  · rename_i hempty _
    dsimp only at h
    split at h
    · cases h
    · split at h
      · cases h
      · cases hd : d.typeName with
        | none => exact absurd (by rw [hd]; rfl) hempty
        | some name =>
          rw [hd] at h
          exact ⟨name, rfl, Kind.message.inj h⟩

theorem eq_of_absolute {name : String} (h : absolute name = namePart) :
    name = "." ++ namePart ∨ name = namePart := by
  unfold absolute at h
  split at h
  · rename_i rest hr
    left
    rw [← String.ofList_toList (s := name), hr, ← h]
    simp
  · exact Or.inr h

/-- The types of the fields of descriptors were declared, as messages or as enums. -/
theorem descriptorFile_named : ∀ s ∈ descriptorFile.sites, ∀ d ∈ s.decl.fields,
    ∀ name ∈ d.typeName, (∃ u ∈ descriptorFile.sites, name = "." ++ u.fullName) ∨
      ∃ e ∈ Schema.enumsOf descriptorFile, name = "." ++ e.1 := by
  decide +kernel

theorem ne_of_kindOf_message {C : Schema.Context} {decl : FieldDecl} {type : String}
    (h : Schema.kindOf C decl = .message type) : ∀ e ∈ C.enums, e.name ≠ type := by
  unfold Schema.kindOf at h
  split at h
  · cases h
  · cases h
  · dsimp only at h
    split at h
    · cases h
    · rename_i hnone
      split at h
      · cases h
      · rintro e he rfl
        exact hnone (List.any_eq_true.mpr ⟨e, he, by simpa using (Kind.message.inj h).symm⟩)

theorem absolute_dot (name : String) : absolute ("." ++ name) = name := by simp [absolute]

/-- Descriptors have the types of the messages in them. -/
theorem message?_isSome {t : MessageType} {f : Field} {n : Nat} {type : String}
    (ht : t ∈ descriptorSchema.messages) (hf : descriptorSchema.field? t n = some f)
    (hk : f.kind = .message type) : (descriptorSchema.message? type).isSome := by
  obtain ⟨s, hs, d, hd, rfl⟩ := exists_decl ht hf
  obtain ⟨name, hname, rfl⟩ := kindOf_message hk
  rcases descriptorFile_named s hs d hd name hname with ⟨u, hu, rfl⟩ | ⟨e, he, rfl⟩
  · have hmem : Schema.messageType (Schema.contextOf [descriptorFile]) descriptorFile.isProto3 u
        ∈ descriptorSchema.messages :=
      List.mem_flatMap.mpr ⟨_, List.mem_singleton_self _, List.mem_map_of_mem hu⟩
    rw [absolute_dot]
    exact List.find?_isSome.mpr ⟨_, hmem, decide_eq_true rfl⟩
  · refine absurd (absolute_dot e.1).symm (ne_of_kindOf_message hk (Schema.enumType e.1 e.2) ?_)
    exact List.mem_flatMap.mpr ⟨_, List.mem_singleton_self _, List.mem_map_of_mem he⟩

/-- The fields of descriptors each stand on their own. -/
theorem descriptorSchema_simple : descriptorSchema.Simple (· ∈ descriptorSchema.messages) where
  mem := id
  entries ht := Schema.mapEntry_of_mem no_mapEntries ht
  oneof ht hf := calm ht _ _ hf
  map := map_eq_false
  group ht hf type hk := by
    obtain ⟨s, hs, d, hd, rfl⟩ := exists_decl ht hf
    exact (descriptorFile_namePart s hs d hd).1 (kindOf_group hk)
  presence ht hf := (descriptorSchema_namePart _ ht _ (mem_of_field? hf)).1
  inner _ _ hu := Schema.mem_of_messageOf? hu

/-- Nothing is required of a message that stands by itself in another one. -/
theorem finish_of_holds {t u : MessageType} {f : Field} {n : Nat} {reading : Reading}
    (ht : t ∈ descriptorSchema.messages) (hf : Holds descriptorSchema t n f u)
    (hr : f.repeated = false) (m : Message) : finish descriptorSchema reading u m = m := by
  refine finish_of_none (fun x hx => ?_) m
  by_contra hrequired
  have hname := (descriptorSchema_namePart u (Schema.mem_of_messageOf? hf.type) x hx).2
    (by simpa using hrequired)
  obtain ⟨type, hk⟩ := hf.kind
  have htype := hf.type
  rw [Schema.messageOf?_eq (Or.inl hk)] at htype
  rw [(Schema.mem_of_message? htype).2] at hname
  obtain ⟨s, hs, d, hd, rfl⟩ := exists_decl ht hf.field
  obtain ⟨name, hd', habsolute⟩ := kindOf_message hk
  rcases (descriptorFile_namePart s hs d hd).2 with h | h | h
  · simp [Schema.field, h] at hr
  · rw [hd'] at h
    cases h
  · rw [hd'] at h
    rcases eq_of_absolute (habsolute.trans hname) with rfl | rfl
    · exact h.1 rfl
    · exact h.2 rfl

theorem descriptorSchema_numbers : ∀ t ∈ descriptorSchema.messages, ∀ f ∈ t.fields,
    (0 < f.number ∧ f.number < 2 ^ 29) ∧ (f.required = true → f.presence = true) := by
  decide +kernel

/-- Descriptors can be filled in and then told from what they were. -/
theorem descriptorSchema_asks : descriptorSchema.Asks (· ∈ descriptorSchema.messages) where
  inRange ht hf :=
    Schema.field?_number hf ▸ (descriptorSchema_numbers _ ht _ (mem_of_field? hf)).1
  presence ht hf := (descriptorSchema_numbers _ ht _ hf).2
  single ht hf hr := finish_of_holds ht hf hr

/-- A typed reader finds in what a schema wrote again, which agrees with the built-in one, what it
had found before. -/
theorem rewrites_typed {S : Schema} (hS : S.Regular) (hM : S.Mirrors descriptorSchema) :
    Rewrites S descriptorSchema .typed (Schema.Counterpart S descriptorSchema)
      fun _ _ _ _ => True where
  left h := ⟨h.left, hM.entries h⟩
  right h := ⟨h.right, calm h.right⟩
  groupless h _ hg := descriptorSchema_simple.group h.right hg
  same h hf hg := ⟨hM.numbered h hf hg, map_eq_false h.right hg,
    descriptorSchema_simple.presence h.right hg⟩
  inner h hf hg := by
    obtain ⟨w, hw, hc⟩ := hM.holds h hg hf.field
    obtain rfl := Option.some.inj (hf.type.symm.trans hw.type)
    exact ⟨hc, finish_of_holds h.right hg⟩
  within _ _ _ _ _ := .of_forall fun _ => trivial
  skipped h _ _ _ hg hm hk hlen := steps_skipped hS h.left hg hm hk hlen

end Bundled

namespace Descriptor
open Bundled

variable {d : Descriptor} {bytes : Bytes} {typed : Message}

/-- A typed message is read as it was written. -/
theorem readTyped_encode (h : readTyped bytes = .ok typed) (hlen : typed.encode.length < 2 ^ 64) :
    readTyped typed.encode = .ok typed := by
  have hfinish : finish descriptorSchema .typed fileType typed = typed :=
    finish_of_none required_fileType typed
  have hread := fills_finish descriptorSchema_regular descriptorSchema_fills descriptorSchema_simple
    descriptorSchema_asks fileType_mem (readTyped_eq_ok_iff.mp h)
  rw [hfinish] at hread
  exact readTyped_eq_ok_iff.mpr (hread hlen)

/-- What has a typed message can be read by the built-in schema, and has the same typed message when
it is written again. -/
theorem exists_decode_of_readTyped (h : readTyped bytes = .ok typed) :
    ∃ m, Message.decode descriptorSchema .lossless fileType bytes = .ok m ∧
      (m.encode.length < 2 ^ 64 → readTyped m.encode = .ok typed) := by
  have hfills := readTyped_eq_ok_iff.mp h
  obtain ⟨m, hm⟩ := Outreads.runs (outreads_lossless map_eq_false fileType_mem)
    (readField_local descriptorSchema .typed maxDepth fileType) hfills []
  refine ⟨m, decode_eq_ok_iff.mpr ⟨m, hm, rfl⟩, fun hlen => readTyped_eq_ok_iff.mpr ?_⟩
  exact (rewrites_typed descriptorSchema_regular mirrors_self).rereads descriptorSchema_regular
    descriptorSchema_regular ⟨fileTypeName, message?_fileType, message?_fileType⟩ trivial hm hfills
    hlen

/-- The typed message is what a typed reader finds in the message, which can be written with its
lengths, also after the built-in schema has read it. -/
structure Current (d : Descriptor) : Prop where
  synced : readTyped d.encode = .ok d.typed
  length : ∀ m, Message.decode descriptorSchema .lossless fileType d.encode = .ok m →
    m.encode.length < 2 ^ 64

/-- Read from what was written of it, a descriptor has the typed message of before. -/
theorem Current.exists_decode (h : d.Current) :
    ∃ e, decode d.encode = .ok e ∧ e.typed = d.typed := by
  obtain ⟨m, hm, hread⟩ := exists_decode_of_readTyped h.synced
  have htyped := hread (h.length m hm)
  refine ⟨⟨descriptorSchema, fileType, m, d.typed⟩, ?_, rfl⟩
  exact bind_eq_ok_iff.mpr ⟨m, hm, ofMessage_eq_ok_iff.mpr ⟨d.typed, htyped, rfl⟩⟩

end Descriptor
end DescriptorKit
