import DescriptorKit.Image.Request
import DescriptorKit.Proofs.Descriptor.Split
import DescriptorKit.Proofs.Descriptor.Unmarked
import DescriptorKit.Proofs.Image.Origin

/-!
Metadata stays out of plain descriptors. What an image knows of its files besides their descriptors
travels in records of a reserved number, and as long as nobody hands in a descriptor with such a
record, no image writes one where descriptors alone are asked for.
-/
namespace DescriptorKit
open Wire Message Descriptor Bundled

namespace Image

variable {modified images : List Image} {I J : Image} {d : Descriptor}

/-- Bytes that hold nothing under the reserved number. -/
abbrev Bare : Bytes → Prop := Lacks Storage.metadataNumber

/-- No descriptor of the image holds anything under the reserved number. -/
def Unmarked (I : Image) : Prop := ∀ f ∈ I.files, f.descriptor.Unmarked

/-- No schema of the image declares options under the reserved number. -/
def OptionsApart (I : Image) : Prop := ∀ f ∈ I.files, Descriptor.OptionsApart f.descriptor.type

theorem fresh_unmarked (h : d.Fresh Bare) : d.Unmarked := by
  cases h with
  | read hb h => exact unmarked_of_decode hb h
  | stored h hlen => exact unmarked_of_decodeFile h hlen

theorem origin_unmarked (hI : ∀ I ∈ images, I.Unmarked) (h : d.Origin Bare images) :
    d.Unmarked := by
  cases h with
  | given h =>
    cases h with
    | read hb h => exact unmarked_of_decode hb h
    | typed hm h => exact unmarked_of_ofTyped hm h
    | file hmem hf => exact hI _ hmem _ hf
  | fresh h => exact fresh_unmarked h
  | reread hd h he => exact unmarked_of_apply (fun d hmem => fresh_unmarked (hd d hmem)) h _ he

theorem arises_unmarked (hI : ∀ I ∈ images, I.Unmarked) (h : Arises Bare images J) : J.Unmarked :=
  fun f hf => origin_unmarked hI (h.origin f hf)

theorem modify_unmarked (h : I.Unmarked) (ha : I.OptionsApart) (C : Managed.Config) :
    (Managed.modify I C).1.Unmarked := by
  intro g hg
  obtain ⟨e', he', rfl⟩ := List.mem_map.mp hg
  obtain ⟨e, he, hc⟩ := exists_of_forall₂ (Managed.modify_carried spares_carries I C) he'
  have hmem : e.2 ∈ I.files := List.mem_map_of_mem he
  exact hc.descriptor.unmarked (ha _ hmem) (h _ hmem)

theorem History.unmarked (h : History Bare modified images) (ha : ∀ I ∈ modified, I.OptionsApart) :
    ∀ I ∈ images, I.Unmarked := by
  induction h with
  | nil => simp
  | arise _ hJ ih => exact List.forall_mem_cons.mpr ⟨arises_unmarked (ih ha) hJ, ih ha⟩
  | modify _ hI C ih =>
    obtain ⟨hapart, ha⟩ := List.forall_mem_cons.mp ha
    exact List.forall_mem_cons.mpr ⟨modify_unmarked (ih ha _ hI) hapart C, ih ha⟩

theorem bare_of_mem (h : I.Unmarked) {b : Bytes} (hb : b ∈ I.files.map (·.descriptor.encode)) :
    Bare b := by
  obtain ⟨f, hf, rfl⟩ := List.mem_map.mp hb
  exact (h f hf).lacks

/-- As long as every descriptor that is handed in holds nothing under the reserved number, so does
every descriptor that an image hands out, alone or in a request, however the image came about. -/
theorem history_bare (h : History Bare modified images) (ha : ∀ I ∈ modified, I.OptionsApart) :
    ∀ I ∈ images,
      (∀ encoded, Storage.decodeFiles I.encodeDescriptors = .ok encoded → ∀ b ∈ encoded, Bare b) ∧
        ∀ options claimed targets, ∀ b ∈ (I.project options claimed targets).descriptors,
          Bare b := by
  intro I hI
  have hbare := fun b hb => bare_of_mem (h.unmarked ha I hI) (b := b) hb
  exact ⟨fun encoded he => Storage.eq_of_decodeFiles he ▸ hbare, fun _ _ _ => hbare⟩

/-- The bytes of an image of one file, with metadata. -/
def labelled : Bytes := Storage.encodeFiles [tagged]

theorem optionsApart_fileType : Descriptor.OptionsApart fileType := by
  have h : ∀ f ∈ fileType.fields, f.name = "options" → f.number ≠ Storage.metadataNumber := by
    decide +kernel
  exact h

theorem history_bare_labelled : ∃ I, Image.decode labelled { reparse := false } = .ok I ∧
    ∀ J ∈ [(Managed.modify I {}).1, I],
      (∀ encoded, Storage.decodeFiles J.encodeDescriptors = .ok encoded → ∀ b ∈ encoded, Bare b) ∧
        ∀ options claimed targets, ∀ b ∈ (J.project options claimed targets).descriptors,
          Bare b := by
  have hready : (Image.decode labelled { reparse := false }).toOption.isSome = true := by
    decide +kernel
  obtain ⟨I, hI⟩ := Option.isSome_iff_exists.mp hready
  have hI := ok_of_toOption hI
  have hapart : I.OptionsApart :=
    fun f hf => (builtin_of_decode rfl hI f hf).type ▸ optionsApart_fileType
  exact ⟨I, hI, history_bare (.modify (.arise .nil (.decode hI)) (by simp) {})
    (by simpa using hapart)⟩

/-- The image of one file that is given as bytes. -/
def imageOfOne (bytes : Bytes) : Option Image := do
  let d ← (Descriptor.decode bytes).toOption
  let f ← (ImageFile.ofParts { descriptor := d }).toOption
  (Image.ofFiles [f]).toOption

/-- Whether the descriptors that an image hands out hold something under the reserved number. -/
def handsOut (I : Image) : Option Bool := do
  let encoded ← (Storage.decodeFiles I.encodeDescriptors).toOption
  let b ← encoded.head?
  let d ← (Descriptor.decode b).toOption
  some (d.message.any fun s => s.number = Storage.metadataNumber)

theorem handsOut_tagged : (imageOfOne tagged).bind handsOut = some true := by decide +kernel

/-- A descriptor that is handed in with metadata is handed out with it. -/
theorem not_bare_tagged : ∃ I, History (fun _ => True) [] [I] ∧ ∃ encoded,
    Storage.decodeFiles I.encodeDescriptors = .ok encoded ∧ ∃ b ∈ encoded, ¬ Bare b := by
  obtain ⟨I, hI, hout⟩ := Option.bind_eq_some_iff.mp handsOut_tagged
  rw [imageOfOne] at hI
  rw [handsOut] at hout
  obtain ⟨d, hd, hI⟩ := Option.bind_eq_some_iff.mp hI
  obtain ⟨f, hf, hI⟩ := Option.bind_eq_some_iff.mp hI
  obtain ⟨encoded, hencoded, hout⟩ := Option.bind_eq_some_iff.mp hout
  obtain ⟨b, hb, hout⟩ := Option.bind_eq_some_iff.mp hout
  obtain ⟨e, he, hout⟩ := Option.bind_eq_some_iff.mp hout
  have hnew : Arises (fun _ => True) [] I := by
    refine .new (fun g hg => ?_) (ok_of_toOption hI)
    obtain rfl := List.mem_singleton.mp hg
    exact .made (.read trivial (ok_of_toOption hd)) (ok_of_toOption hf)
  refine ⟨I, .arise .nil hnew, encoded, ok_of_toOption hencoded, b, List.mem_of_head? hb,
    fun hbare => ?_⟩
  obtain ⟨s, hs, hn⟩ := List.any_eq_true.mp (Option.some.inj hout)
  exact (unmarked_of_decode hbare (ok_of_toOption he)).number_ne s hs (by simpa using hn)

end Image
end DescriptorKit
