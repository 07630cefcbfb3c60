import DescriptorKit.Proofs.Image.Formed
import DescriptorKit.Proofs.Image.Stored

/-!
Where the descriptors of an image come from. An operation takes them from bytes that it is given,
from typed messages, or from images there were before; all that may become of them on the way is
that they are read again.
-/
namespace DescriptorKit
open Descriptor

/-- Descriptors handed to an operation next to some images. Those given as bytes are of admitted
bytes. -/
inductive Descriptor.Given (P : Bytes → Prop) (images : List Image) : Descriptor → Prop where
  | read {bytes : Bytes} {d : Descriptor} (hb : P bytes) (h : Descriptor.decode bytes = .ok d) :
      Given P images d
  | typed {bytes : Bytes} {typed : Message} {d : Descriptor} (hm : readTyped bytes = .ok typed)
      (h : Descriptor.ofTyped typed = .ok d) : Given P images d
  | file {I : Image} {f : ImageFile} (hI : I ∈ images) (hf : f ∈ I.files) :
      Given P images f.descriptor

/-- Files handed to an operation next to some images. -/
inductive ImageFile.Given (P : Bytes → Prop) (images : List Image) : ImageFile → Prop where
  | made {p : ImageFile.Parts} {f : ImageFile} (hd : p.descriptor.Given P images)
      (h : ImageFile.ofParts p = .ok f) : Given P images f
  | file {I : Image} {f : ImageFile} (hI : I ∈ images) (hf : f ∈ I.files) : Given P images f
  | withImport {f : ImageFile} (h : Given P images f) (b : Bool) : Given P images (f.withImport b)

/-- The images that one operation makes next to some images, of admitted bytes where it is given
descriptors as bytes. An encoded image may be any. -/
inductive Image.Arises (P : Bytes → Prop) (images : List Image) : Image → Prop where
  | new {files : List ImageFile} {I : Image} (hf : ∀ f ∈ files, f.Given P images)
      (h : ofFiles files = .ok I) : Arises P images I
  | decode {bytes : Bytes} {options : DecodeOptions} {I : Image}
      (h : Image.decode bytes options = .ok I) : Arises P images I
  | ofRequest {r : Request} {I : Image} (hr : ∀ b ∈ r.descriptors, P b)
      (h : Image.ofRequest r = .ok I) : Arises P images I
  | withoutImports {I : Image} (hI : I ∈ images) : Arises P images I.withoutImports
  | narrow {I J : Image} {missing : Missing} {include_ exclude : List String} (hI : I ∈ images)
      (h : I.narrow missing include_ exclude = .ok J) : Arises P images J
  | part {I J : Image} {parts : List Image} (hI : I ∈ images) (h : I.byDirectory = .ok parts)
      (hJ : J ∈ parts) : Arises P images J
  | merge {given : List Image} {M : Image} (hI : ∀ I ∈ given, I ∈ images)
      (h : Image.merge given = .ok (some M)) : Arises P images M
  | copy {I : Image} (hI : I ∈ images) : Arises P images I

/-- A sequence of operations: the images that were modified in it and the images it made, the last
one first. -/
inductive Image.History (P : Bytes → Prop) : List Image → List Image → Prop where
  | nil : History P [] []
  | arise {modified images : List Image} {I : Image} (h : History P modified images)
      (hI : Arises P images I) : History P modified (I :: images)
  | modify {modified images : List Image} {I : Image} (h : History P modified images)
      (hI : I ∈ images) (C : Managed.Config) :
      History P (I :: modified) ((Managed.modify I C).1 :: images)

/-- Descriptors just read from bytes, which are admitted ones or those of a file of an encoded
image. -/
inductive Descriptor.Fresh (P : Bytes → Prop) : Descriptor → Prop where
  | read {bytes : Bytes} {d : Descriptor} (hb : P bytes) (h : Descriptor.decode bytes = .ok d) :
      Fresh P d
  | stored {bytes : Bytes} {s : Descriptor × Message} (h : Storage.decodeFile bytes = .ok s)
      (hlen : bytes.length < 2 ^ 64) : Fresh P s.1

/-- Descriptors that stand in an image: handed over, or just read, and maybe read again then. -/
inductive Descriptor.Origin (P : Bytes → Prop) (images : List Image) : Descriptor → Prop where
  | given {d : Descriptor} (h : d.Given P images) : Origin P images d
  | fresh {d : Descriptor} (h : d.Fresh P) : Origin P images d
  | reread {ds es : List Descriptor} {e : Descriptor} (hd : ∀ d ∈ ds, d.Fresh P)
      (h : Reparse.apply ds = .ok es) (he : e ∈ es) : Origin P images e

namespace Image

variable {P : Bytes → Prop} {images given : List Image} {I J M : Image} {f : ImageFile}

theorem exists_decode_of_fresh {d : Descriptor} (h : d.Fresh P) :
    ∃ bytes, Descriptor.decode bytes = .ok d := by
  cases h with
  | read _ h => exact ⟨_, h⟩
  | stored h _ => exact Storage.exists_decode h

theorem given_descriptor (h : f.Given P images) : f.descriptor.Given P images := by
  induction h with
  | made hd h => exact (ImageFile.ofParts_valid h).2 ▸ hd
  | file hI hf => exact .file hI hf
  | withImport _ _ ih => exact ih

theorem descriptor_of_narrow {missing : Missing} {include_ exclude : List String}
    (h : I.narrow missing include_ exclude = .ok J) : ∀ f ∈ J.files, ∃ g ∈ I.files,
      f.descriptor = g.descriptor := by
  obtain ⟨include', -, h⟩ := bind_eq_ok_iff.mp h
  obtain ⟨exclude', -, h⟩ := bind_eq_ok_iff.mp h
  rw [narrowTo] at h
  split at h
  · obtain rfl := Except.ok.inj h
    exact fun f hf => ⟨f, hf, rfl⟩
  · split at h
    · cases h
    · split at h
      · cases h
      · dsimp only at h
        split at h
        · cases h
        · intro f hf
          obtain ⟨g, hg, rfl⟩ := List.mem_map.mp ((mem_files_of_ofFiles h).mp hf)
          exact ⟨g, List.mem_of_mem_filter hg, rfl⟩

theorem origin_of_decode {bytes : Bytes} {options : DecodeOptions}
    (h : Image.decode bytes options = .ok I) : ∀ f ∈ I.files, f.descriptor.Origin P images := by
  obtain ⟨-, encoded, stored, ds, files, hencoded, -, hstored, hds, hfiles, hI⟩ :=
    decode_eq_ok_iff.mp h
  have hshort := Storage.length_lt_of_decodeFiles hencoded
  have hin : ∀ d ∈ stored.map (·.1), d.Fresh P := by
    intro d hd
    obtain ⟨s, hs, rfl⟩ := List.mem_map.mp hd
    obtain ⟨b, hb, hdecode⟩ := mem_of_mapM hstored hs
    exact .stored hdecode (hshort b hb)
  have hall : ∀ d ∈ ds, d.Origin P images := by
    unfold settled at hds
    split at hds
    · exact fun d hd => .reread hin hds hd
    · exact Except.ok.inj hds ▸ fun d hd => .fresh (hin d hd)
  intro f hf
  obtain ⟨-, p, hp, hd⟩ := filesOf_valid hfiles f ((mem_files_of_ofFiles hI).mp hf)
  exact hd ▸ hall p.1 (List.of_mem_zip hp).1

theorem origin_of_ofRequest {r : Request} (hr : ∀ b ∈ r.descriptors, P b)
    (h : Image.ofRequest r = .ok I) : ∀ f ∈ I.files, f.descriptor.Origin P images := by
  obtain ⟨ds, hds, h⟩ := bind_eq_ok_iff.mp h
  obtain ⟨es, hes, h⟩ := bind_eq_ok_iff.mp h
  obtain ⟨files, hfiles, h⟩ := bind_eq_ok_iff.mp h
  obtain ⟨J, hJ, h⟩ := bind_eq_ok_iff.mp h
  have hin : ∀ d ∈ ds, d.Fresh P := by
    intro d hd
    obtain ⟨b, hb, hdecode⟩ := mem_of_mapM hds hd
    exact .read (hr b hb) (mapError_eq_ok_iff.mp hdecode)
  intro f hf
  obtain ⟨g, hg, he⟩ := descriptor_of_narrow h f hf
  obtain ⟨e, hmem, hparts⟩ := mem_of_mapM hfiles ((mem_files_of_ofFiles hJ).mp hg)
  rw [he, (ImageFile.ofParts_valid hparts).2]
  exact .reread hin hes hmem

/-- Whatever operation makes an image, its descriptors come from what the operation was given. -/
theorem Arises.origin (h : Arises P images J) : ∀ f ∈ J.files, f.descriptor.Origin P images := by
  cases h with
  | new hf h =>
    exact fun f hmem => .given (given_descriptor (hf f ((mem_files_of_ofFiles h).mp hmem)))
  | decode h => exact origin_of_decode h
  | ofRequest hr h => exact origin_of_ofRequest hr h
  | withoutImports hI =>
    exact fun f hf => .given (.file hI ((List.filter_sublist.map _).subset hf))
  | narrow hI h =>
    intro f hf
    obtain ⟨g, hg, he⟩ := descriptor_of_narrow h f hf
    exact he ▸ .given (.file hI hg)
  | part hI h hJ =>
    obtain ⟨dir, -, hn⟩ := mem_of_mapM h hJ
    intro f hf
    obtain ⟨g, hg, he⟩ := descriptor_of_narrow hn f hf
    exact he ▸ .given (.file hI hg)
  | merge hI h =>
    intro f hf
    obtain ⟨I, hmem, hf⟩ := mem_of_merge h f hf
    exact .given (.file (hI I hmem) hf)
  | copy hI => exact fun f hf => .given (.file hI hf)

end Image
end DescriptorKit
