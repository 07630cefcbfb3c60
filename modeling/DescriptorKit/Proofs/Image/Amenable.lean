import DescriptorKit.Proofs.Descriptor.Reached
import DescriptorKit.Proofs.Image.Origin
import DescriptorKit.Proofs.Managed.Succeeds

/-!
Images whose files have room for options: what they are held by declares the options, and neither
their length nor their depth leaves a reader no room. However such images came about, a pass over
one of them succeeds.
-/
namespace DescriptorKit
open Wire Message Descriptor Bundled Managed

/-- A descriptor of a schema that agrees with the built-in one and declares the options, and that is
neither too deep nor too long for them. -/
structure Descriptor.Roomy (d : Descriptor) : Prop where
  mirrors : d.schema.Mirrors descriptorSchema
  settable : d.schema.Settable
  addressable : d.decl.Addressable
  shallow : ∀ v ∈ d.decl.views, v.path.length / 2 < maxDepth
  length : d.encode.length < 2 ^ 64
  typed_length : d.typed.encode.length < 2 ^ 64

namespace Image

variable {P : Bytes → Prop} {images : List Image} {I : Image} {d : Descriptor} {C : Config}

/-- A sequence of operations, told by the images it made, the last one first. Each image that is not
a modified one has room for options, and what passes leave is short enough to be read. -/
inductive Amenable : List Image → Prop where
  | nil : Amenable []
  | arise {images : List Image} {I : Image} (h : Amenable images)
      (hI : Arises (fun _ => True) images I)
      (hr : ∀ f ∈ I.files, f.descriptor.Roomy) : Amenable (I :: images)
  | modify {images : List Image} {I : Image} (h : Amenable images) (hI : I ∈ images) (C : Config)
      (hb : Brief C I.entries) : Amenable ((Managed.modify I C).1 :: images)

section Origin

/-- Descriptors with room agree with the built-in schema, wherever they come from. -/
theorem origin_mirrored (hI : ∀ I ∈ images, ∀ f ∈ I.files, f.descriptor.Mirrored)
    (h : d.Origin P images) (hr : d.Roomy) : d.Mirrored := by
  cases h with
  | given h =>
    cases h with
    | read _ h => exact decode_mirrored h
    | typed hm h =>
      have hsynced := ofTyped_synced hm h
      obtain ⟨m, hdecode, he⟩ := bind_eq_ok_iff.mp h
      obtain rfl := Except.ok.inj he
      exact ⟨descriptorSchema_regular, mirrors_self,
        ⟨fileTypeName, message?_fileType, message?_fileType⟩,
        decode_shaped descriptorSchema_regular (fun h => by cases h) fileType_mem hdecode,
        hsynced hr.typed_length hr.length⟩
    | file hmem hf => exact hI _ hmem _ hf
  | fresh h =>
    obtain ⟨bytes, hd⟩ := exists_decode_of_fresh h
    exact decode_mirrored hd
  | reread hds h he =>
    obtain ⟨pool, hpool, hall⟩ := Reparse.apply_eq_ok_iff.mp h
    obtain ⟨d₀, hd₀, hrereads⟩ := exists_of_forall₂ hall he
    obtain ⟨bytes, hdecode⟩ := exists_decode_of_fresh (hds d₀ hd₀)
    cases ht : pool.schema.message? fileTypeName with
    | none => exact hrereads.same ht ▸ decode_mirrored hdecode
    | some t =>
      have hread := hrereads.read ht
      have hregular := Reparse.pool_regular hpool
      obtain ⟨m, hm, he⟩ := bind_eq_ok_iff.mp hread
      obtain rfl := Except.ok.inj he
      exact ⟨hregular, hr.mirrors, counterpart_fileType ht,
        decode_shaped hregular (fun h => by cases h) (Schema.mem_of_message? ht).1 hm,
        reread_synced (decode_synced hdecode) hregular hr.mirrors ht hread hr.length⟩

end Origin

/-- Options can be set in every file of every image of the sequence. -/
theorem Amenable.ready (h : Amenable images) : ∀ I ∈ images, ∀ f ∈ I.files, f.descriptor.Ready := by
  induction h with
  | nil => simp
  | arise _ hI hr ih =>
    refine List.forall_mem_cons.mpr ⟨fun f hf => ?_, ih⟩
    have hroom := hr f hf
    exact ⟨origin_mirrored (fun I hI f hf => (ih I hI f hf).mirrored) (hI.origin f hf) hroom,
      hroom.settable, hroom.addressable, hroom.shallow⟩
  | modify _ hI C hb ih => exact List.forall_mem_cons.mpr ⟨modify_ready (ih _ hI) hb, ih⟩

/-- However an image came about, a pass over it succeeds, if the selectors of its rules are in
normal form and its overrides give values of the kinds of their options. -/
theorem modify_succeeds (h : Amenable images) (hI : I ∈ images) (hC : C.validate = .ok ())
    (hT : C.WellTyped) (hb : Brief C I.entries) : ∃ r, (Managed.modify I C).2 = .ok r := by
  cases hr : (Managed.modify I C).2 with
  | ok r => exact ⟨r, rfl⟩
  | error e =>
    rcases modify_error (h.ready I hI) hb hr with hinvalid | hmisled
    · rw [hC] at hinvalid
      cases hinvalid
    · exact absurd hT hmisled.2

section Runs

/-- The built-in schema declares the options. -/
theorem descriptorSchema_settable : descriptorSchema.Settable := by
  decide +kernel

/-- Whether a descriptor leaves room for options. -/
def isRoomy (d : Descriptor) : Bool :=
  decide (d.decl.messages.length ≤ 2 ^ 31) && decide (d.decl.extensions.length ≤ 2 ^ 31) &&
    d.decl.sites.all (·.decl.isShort) && d.decl.views.all (fun v => v.path.length / 2 < maxDepth) &&
      (decide (d.encode.length < 2 ^ 64) && decide (d.typed.encode.length < 2 ^ 64))

theorem roomy_of_isRoomy (hs : d.schema = descriptorSchema) (h : isRoomy d = true) : d.Roomy := by
  simp only [isRoomy, Bool.and_eq_true, decide_eq_true_eq, List.all_eq_true] at h
  obtain ⟨⟨⟨⟨hm, he⟩, hsites⟩, hviews⟩, hlen, htyped⟩ := h
  exact ⟨hs ▸ mirrors_self, hs ▸ descriptorSchema_settable,
    FileDecl.addressable_of_sites hm he hsites,
    hviews, hlen, htyped⟩

/-- The bytes of an image of a file with a field of 64 bits. -/
def wide : Bytes :=
  Storage.encodeFiles
    [FileDecl.toMessage
      { name := "a.proto"
        messages := [{ name := "M", fields := [one "id" 1 int64] }] } |>.encode]

/-- Represents integers of 64 bits as strings. -/
def strings : Config := { fieldRules := [{ option := .jsType, value := .jsType .string }] }

/-- Whether a pass over an image with room for options leaves what can be read. -/
def isBrief (I : Image) : Bool :=
  I.files.all (fun f => isRoomy f.descriptor) &&
    (modifyFiles strings I.entries).1.all fun m => m.1.2.descriptor.encode.length < 2 ^ 64

theorem isBrief_wide :
    (Image.decode wide { reparse := false }).toOption.map isBrief = some true := by
  decide +kernel

theorem modify_succeeds_wide : ∃ I, Image.decode wide { reparse := false } = .ok I ∧
    ∃ r, (Managed.modify I strings).2 = .ok r := by
  obtain ⟨I, hI, hbrief⟩ := Option.map_eq_some_iff.mp isBrief_wide
  obtain ⟨hroomy, hshort⟩ := Bool.and_eq_true_iff.mp hbrief
  have hI := ok_of_toOption hI
  have hb : Brief strings I.entries := fun m hm => by simpa using List.all_eq_true.mp hshort m hm
  have hr : ∀ f ∈ I.files, f.descriptor.Roomy := fun f hf =>
    roomy_of_isRoomy (builtin_of_decode rfl hI f hf).schema (List.all_eq_true.mp hroomy f hf)
  exact ⟨I, hI, modify_succeeds (.arise .nil (.decode hI) hr) List.mem_cons_self rfl
    ⟨by simp [strings], by simp [strings]⟩ hb⟩

/-- The bytes of an image with an older file of what descriptors are. -/
def outdated : Bytes :=
  Storage.encodeFiles [older, FileDecl.toMessage { name := "a.proto" } |>.encode]

/-- The option that a pass does not find declared. -/
def undeclared? : Except Error Report → Option String
  | .error (.breach (.fileOptionRefused name .missing)) => some name
  | _ => none

theorem undeclared_outdated :
    (Image.decode outdated {}).toOption.bind (fun I => undeclared? (Managed.modify I {}).2) =
      some "java_outer_classname" := by
  decide +kernel

/-- Where the image has a file of what descriptors are that does not know an option yet, a pass
breaks without any rule. -/
theorem not_succeeds_outdated : ∃ I, Image.decode outdated {} = .ok I ∧
    Config.validate {} = .ok () ∧ Config.WellTyped {} ∧ (Managed.modify I {}).2 =
      .error (.breach (.fileOptionRefused "java_outer_classname" .missing)) := by
  obtain ⟨I, hI, hname⟩ := Option.bind_eq_some_iff.mp undeclared_outdated
  refine ⟨I, ok_of_toOption hI, rfl, ⟨by simp, by simp⟩, ?_⟩
  unfold undeclared? at hname
  split at hname
  · next hr => rw [hr, Option.some.inj hname]
  · cases hname

end Runs

end Image
end DescriptorKit
