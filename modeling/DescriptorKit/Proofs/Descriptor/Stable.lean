import DescriptorKit.Proofs.Descriptor.Honest
import DescriptorKit.Proofs.Message.Stable

/-!
Descriptors of the built-in schema that are found again in what was written of them. Whatever is
changed of such a descriptor, its message stays one that a reader could have put together.
-/
namespace DescriptorKit
open Message

namespace Schema

/-- Each single field has something to hold while it is unset: a scalar, or a message of a type. -/
def Resolved (S : Schema) : Prop :=
  ∀ t ∈ S.messages, ∀ f ∈ t.fields,
    f.repeated = true ∨ (S.scalarDefault? f).isSome ∨ (S.messageOf? f).isSome

/-- What takes the scalar as the option of the name takes a single one. -/
def SingleOption (S : Schema) (t : MessageType) (name : String) (s : Scalar) : Prop :=
  ∀ f ∈ t.fields, f.name = "options" → ∀ u, S.messageOf? f = some u →
    ∀ g ∈ u.fields, g.name = name → (Value.scalar s).fits g = true → g.repeated = false

end Schema

namespace Message

variable {S : Schema} {t u : MessageType} {f g : Field} {m m' inner : Message} {s : Scalar}
  {name : String} {b : Bool}

theorem shaped_inner (h : Value.Shaped S f b (.message inner)) (hu : S.messageOf? f = some u) :
    f.map = true ∨ Shaped S u inner := by
  rw [Value.Shaped] at h
  rcases h.2 with hm | ⟨w, hw, hin⟩
  · exact Or.inl hm
  · obtain rfl := Option.some.inj (hu.symm.trans hw)
    exact Or.inr hin

theorem shaped_message (hb : b = true) (hu : S.messageOf? f = some u)
    (h : f.map = true ∨ Shaped S u inner) : Value.Shaped S f b (.message inner) := by
  rw [Value.Shaped]
  exact ⟨hb, h.imp_right fun h => ⟨u, hu, h⟩⟩

theorem single_of_message (h : Value.Shaped S f b (.message inner)) : b = true := by
  rw [Value.Shaped] at h
  exact h.1

section Changes

variable (hS : S.Regular) (hR : S.Resolved)
include hS hR

theorem Shaped.get (ht : t ∈ S.messages) (hm : Shaped S t m) (hf : f ∈ t.fields) :
    Value.Shaped S f (!f.repeated) (m.get S f) := by
  rw [Message.get]
  cases hv : m.get? f with
  | none => exact default_shaped (hS.fields t ht f hf) (hR t ht f hf)
  | some v => exact hm.value (hm.get? (hS.field?_of_mem ht hf) hv)

theorem Shaped.touch (ht : t ∈ S.messages) (hm : Shaped S t m) (hf : f ∈ t.fields) :
    Shaped S t (m.touch S f) :=
  hm.set (hS.field?_of_mem ht hf) (hm.get hS hR ht hf)

omit hR in
theorem Shaped.setNamed (ht : t ∈ S.messages) (hm : Shaped S t m)
    (hone : ∀ g ∈ t.fields, g.name = name → (Value.scalar s).fits g = true → g.repeated = false)
    (h : setNamed S t name s m = .ok m') : Shaped S t m' := by
  unfold Message.setNamed at h
  split at h
  · cases h
  · rename_i g hg
    split at h
    · rename_i hfits
      obtain rfl := Except.ok.inj h
      have hsingle := hone g (List.mem_of_find?_eq_some hg)
        (by simpa using List.find?_some hg) hfits
      refine hm.set (hS.field?_of_named ht hg) ?_
      rw [Value.Shaped, hsingle]
      exact ⟨rfl, Value.fits_of_fits hfits⟩
    · cases h

theorem Shaped.setOption (ht : t ∈ S.messages) (hm : Shaped S t m) (hone : S.SingleOption t name s)
    (a : Breach) (b : SetFault → Breach) : Shaped S t (m.setOption S t name s a b).1 := by
  unfold Message.setOption
  split
  · exact hm
  · rename_i f hf
    have hmem : f ∈ t.fields := List.mem_of_find?_eq_some hf
    have hname : f.name = "options" := by simpa using List.find?_some hf
    have htouch : Shaped S t (m.touch S f) := hm.touch hS hR ht hmem
    dsimp only
    split
    · rename_i options u hv hu
      have hget := hv ▸ htouch.get hS hR ht hmem
      split
      · rename_i options' ho
        refine htouch.set (hS.field?_of_mem ht hmem)
          (shaped_message (single_of_message hget) hu
            ((shaped_inner hget hu).imp_right fun hin => ?_))
        exact hin.setNamed hS (Schema.mem_of_messageOf? hu) (hone f hmem hname u hu) ho
      · exact htouch
    · exact htouch

/-- A change that leaves messages of their types leaves one of its type, too, where it is done to an
element further down. -/
theorem Shaped.updateAt {missing : Breach}
    {change : MessageType → Message → Message × Except Breach Unit}
    (hc : ∀ t m, t ∈ S.messages → Shaped S t m → Shaped S t (change t m).1) :
    ∀ (path : List Int32) (t : MessageType) (m : Message), t ∈ S.messages → Shaped S t m →
      Shaped S t (updateAt S missing change path t m).1
  | [], t, m, ht, hm => hc t m ht hm
  | [_], _, _, _, hm => hm
  | number :: index :: rest, t, m, ht, hm => by
    unfold Message.updateAt
    split
    · exact hm
    · rename_i f hf
      have hmem : f ∈ t.fields := by
        split at hf
        · exact List.mem_of_find?_eq_some hf
        · cases hf
      have htouch : Shaped S t (m.touch S f) := hm.touch hS hR ht hmem
      dsimp only
      split
      · rename_i vs u hv hu
        have hvs : Value.Shaped S f (!f.repeated) (.many vs) := hv ▸ htouch.get hS hR ht hmem
        split
        · rename_i inner hinner
          rw [Value.Shaped, Value.allShaped_iff] at hvs
          have hin : Value.Shaped S f true (.message inner) := by
            split at hinner
            · exact hvs.2 _ (List.mem_of_getElem? hinner)
            · cases hinner
          have hu' := Schema.mem_of_messageOf? hu
          refine htouch.set (hS.field?_of_mem ht hmem) ?_
          rw [Value.Shaped, Value.allShaped_iff]
          refine ⟨hvs.1, fun v hmemv => ?_⟩
          rcases List.mem_or_eq_of_mem_set hmemv with hmemv | rfl
          · exact hvs.2 v hmemv
          · exact shaped_message rfl hu ((shaped_inner hin hu).imp_right fun hi =>
              Shaped.updateAt hc rest _ inner hu' hi)
        · exact htouch
      · exact htouch

end Changes

end Message

namespace Descriptor
open Wire Payload Bundled

variable {d e : Descriptor} {P : Bytes → Prop} {bytes : Bytes} {typed : Message} {α : Type}
  {ds es : List Descriptor} {f : Field} {m : Message}

theorem dropLocations_shaped (hS : d.schema.Regular) (hR : d.schema.Resolved)
    (ht : d.type ∈ d.schema.messages) (hm : Shaped d.schema d.type m)
    (hf : d.type.fieldNamed? "source_code_info" = some f) (paths : List (List Int32)) :
    Shaped d.schema d.type (d.dropLocations paths f m).1 := by
  have hmem : f ∈ d.type.fields := List.mem_of_find?_eq_some hf
  have hfield := hS.field?_of_mem ht hmem
  have htouch : Shaped d.schema d.type (m.touch d.schema f) := hm.touch hS hR ht hmem
  unfold dropLocations
  dsimp only
  split
  · rename_i info u hv hu
    have hget := hv ▸ htouch.get hS hR ht hmem
    have hu' := Schema.mem_of_messageOf? hu
    split
    · exact htouch
    · rename_i g hg
      have hgmem : g ∈ u.fields := List.mem_of_find?_eq_some hg
      have hinfo : f.map = true ∨ Shaped d.schema u (touch d.schema g info) :=
        (shaped_inner hget hu).imp_right fun hin => hin.touch hS hR hu' hgmem
      have hput : ∀ {k : Message}, f.map = true ∨ Shaped d.schema u k →
          Shaped d.schema d.type (Message.set f (.message k) (m.touch d.schema f)) := fun hk =>
        htouch.set hfield (shaped_message (single_of_message hget) hu hk)
      split
      · rename_i locations hl
        refine hput (hinfo.imp_right fun hin => ?_)
        have hls := hl ▸ hin.get hS hR hu' hgmem
        refine hin.set (hS.field?_of_mem hu' hgmem) ?_
        rw [Value.Shaped, Value.allShaped_iff] at hls ⊢
        exact ⟨hls.1, fun v hv => hls.2 v (List.mem_filter.mp hv).1⟩
      · exact hput hinfo
  · exact htouch

/-- Where the built-in schema holds the descriptor, its message is one that a reader could have put
together. -/
def Tidy (d : Descriptor) : Prop := d.Builtin → Shaped d.schema d.type d.message

section Origin

theorem decode_tidy (h : decode bytes = .ok d) : d.Tidy := by
  obtain ⟨m, typed, rfl, hm, -⟩ := decode_inv h
  exact fun _ => hm.shaped descriptorSchema_regular (fun h => by cases h) fileType_mem .nil

theorem ofTyped_tidy (h : ofTyped typed = .ok d) : d.Tidy := by
  obtain ⟨m, hm, he⟩ := bind_eq_ok_iff.mp h
  obtain rfl := Except.ok.inj he
  exact fun _ => decode_shaped descriptorSchema_regular (fun h => by cases h) fileType_mem hm

theorem apply_tidy (hds : ∀ d ∈ ds, ∃ bytes, decode bytes = .ok d) (h : Reparse.apply ds = .ok es)
    (he : e ∈ es) : e.Tidy := by
  rcases Reparse.apply_cases h with rfl | ⟨S, t, hS, ht, hall⟩
  · obtain ⟨bytes, hd⟩ := hds e he
    exact decode_tidy hd
  · obtain ⟨d, -, hr⟩ := exists_of_forall₂ hall he
    obtain ⟨m, rfl, hm⟩ := reread_inv hr
    exact fun _ => hm.shaped hS (fun h => by cases h) ht .nil

end Origin

section Changes

theorem descriptorSchema_resolved : descriptorSchema.Resolved := by
  intro t ht f hf
  have hfield := descriptorSchema_regular.field?_of_mem ht hf
  right
  rcases f.kind.single_or_nested with hk | ⟨type, hk | hk⟩
  · exact .inl (isSome_scalarDefault? hk)
  · rw [Schema.messageOf?_eq (Or.inl hk)]
    exact .inr (message?_isSome ht hfield hk)
  · exact absurd hk (descriptorSchema_simple.group ht hfield type)

/-- Lists among the options of files are lists of messages. -/
theorem fileOptions_lists : ∀ f ∈ fileType.fields, f.name = "options" →
    ∀ u ∈ descriptorSchema.messageOf? f, ∀ g ∈ u.fields, g.repeated = true →
      ∃ v ∈ descriptorSchema.messages, g.kind = .message v.name := by
  decide +kernel

theorem descriptorFile_jsType : ∀ s ∈ descriptorFile.sites, ∀ d ∈ s.decl.fields,
    d.name = "jstype" → d.label ≠ .repeated := by
  decide +kernel

theorem singleOption_jsType (t : MessageType) (s : Scalar) :
    descriptorSchema.SingleOption t "jstype" s := by
  intro f _ _ u hu g hg hname _
  have hu := Schema.mem_of_messageOf? hu
  obtain ⟨s, hs, d, hd, rfl⟩ := exists_decl hu (descriptorSchema_regular.field?_of_mem hu hg)
  exact decide_eq_false (descriptorFile_jsType s hs d hd hname)

theorem singleOption_file (name : String) (s : Scalar) :
    descriptorSchema.SingleOption fileType name s := by
  intro f hf hoptions u hu g hg _ hfits
  by_contra hr
  obtain ⟨v, -, hk⟩ := fileOptions_lists f hf hoptions u hu g hg (by simpa using hr)
  have hno := Value.fits_of_fits hfits
  rw [hk] at hno
  cases hno

theorem modify_tidy {change : Message → Message × Except Breach α} (h : d.Tidy)
    (hc : d.Builtin → Shaped d.schema d.type d.message →
      Shaped d.schema d.type (change d.message).1) : (d.modify change).1.Tidy := by
  rcases d.modify_cases change with ⟨f, -, hm⟩ | ⟨typed, -, hm⟩ <;> rw [hm]
  · exact fun hb => hc ⟨hb.schema, hb.type⟩ (h ⟨hb.schema, hb.type⟩)
  · exact fun hb => hc ⟨hb.schema, hb.type⟩ (h ⟨hb.schema, hb.type⟩)

theorem setFileOption_tidy (h : d.Tidy) (name : String) (s : Scalar) :
    (d.setFileOption name s).1.Tidy := by
  refine modify_tidy h fun ⟨hschema, htype⟩ hm => ?_
  rw [hschema, htype] at hm ⊢
  exact hm.setOption descriptorSchema_regular descriptorSchema_resolved fileType_mem
    (singleOption_file name s) _ _

theorem setJsType_tidy (h : d.Tidy) (path : List Int32) (code : Int32) :
    (d.setJsType path code).1.Tidy := by
  refine modify_tidy h fun ⟨hschema, htype⟩ hm => ?_
  rw [hschema, htype] at hm ⊢
  refine Shaped.updateAt descriptorSchema_regular descriptorSchema_resolved
    (fun t m ht hm => ?_) path
    fileType d.message fileType_mem hm
  exact hm.setOption descriptorSchema_regular descriptorSchema_resolved ht
    (singleOption_jsType t _) _ _

theorem removeLocations_tidy (h : d.Tidy) (paths : List (List Int32)) :
    (d.removeLocations paths).1.Tidy := by
  unfold removeLocations
  split
  · exact h
  · rename_i f hf
    split
    · exact h
    · refine modify_tidy h ?_
      rintro ⟨hschema, htype⟩ hm
      exact dropLocations_shaped (hschema ▸ descriptorSchema_regular)
        (hschema ▸ descriptorSchema_resolved) (hschema ▸ htype ▸ fileType_mem) hm hf paths

theorem tidy_carries : Managed.Carries fun d e => d.Tidy → e.Tidy where
  refl _ := id
  trans h h' := h' ∘ h
  setFileOption _ name s h := setFileOption_tidy h name s
  setJsType _ path code _ h := setJsType_tidy h path code
  removeLocations _ paths h := removeLocations_tidy h paths

theorem tidy_lasting : Lasting (fun _ => True) Tidy where
  decode := decode_tidy
  ofTyped _ h _ := ofTyped_tidy h
  apply hds h he _ := apply_tidy hds h he
  carries := tidy_carries

end Changes

section Written

/-- What is read from what was written of a descriptor of the built-in schema is the descriptor, as
far as the message goes. -/
theorem Tidy.message_of_decode (h : d.Tidy) (hb : d.Builtin) (hlen : d.encode.length < 2 ^ 64)
    (hm : Message.decode descriptorSchema .lossless fileType d.encode = .ok m) : m = d.message := by
  have hshaped := h hb
  rw [hb.schema, hb.type] at hshaped
  exact returns descriptorSchema_regular descriptorSchema_simple descriptorSchema_asks fileType
    d.message m fileType_mem hshaped hlen (decode_lossless_iff.mp hm)

theorem Tidy.short (h : d.Tidy) (hb : d.Builtin) (hlen : d.encode.length < 2 ^ 64) : d.Short :=
  fun _ hm => h.message_of_decode hb hlen hm ▸ hlen

theorem Tidy.eq_of_decode (h : d.Tidy) (hb : d.Builtin) (hlen : d.encode.length < 2 ^ 64)
    (he : decode d.encode = .ok e) (htyped : e.typed = d.typed) : e = d := by
  obtain ⟨m, hm, he⟩ := bind_eq_ok_iff.mp he
  obtain rfl := h.message_of_decode hb hlen hm
  obtain ⟨typed, -, rfl⟩ := ofMessage_eq_ok_iff.mp he
  obtain ⟨schema, type, message, own⟩ := d
  obtain ⟨hschema, htype⟩ := hb
  dsimp only at hschema htype htyped
  rw [hschema, htype, htyped]

end Written

end Descriptor
end DescriptorKit
