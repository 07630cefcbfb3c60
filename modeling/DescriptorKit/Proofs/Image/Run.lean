import DescriptorKit.Proofs.Image.Formed

/-!
Runs of operations on images. Each image of a run is formed from earlier ones, from bytes or from
sources, and stays what an image has to be, also where a pass over it stopped midway.
-/
namespace DescriptorKit
open Descriptor Bundled

/-- Descriptors at hand next to some images: those read from bytes, those made of typed messages,
and those of the files of the images. -/
inductive Descriptor.AtHand (images : List Image) : Descriptor → Prop where
  | read {bytes : Bytes} {d : Descriptor} (h : Descriptor.decode bytes = .ok d) : AtHand images d
  | typed {bytes : Bytes} {typed : Message} {d : Descriptor} (hm : readTyped bytes = .ok typed)
      (h : Descriptor.ofTyped typed = .ok d) : AtHand images d
  | file {I : Image} {f : ImageFile} (hI : I ∈ images) (hf : f ∈ I.files) :
      AtHand images f.descriptor

/-- Files at hand next to some images: those made of parts, and those of the images, as targets or
as imports. -/
inductive ImageFile.AtHand (images : List Image) : ImageFile → Prop where
  | made {p : ImageFile.Parts} {f : ImageFile} (hd : p.descriptor.AtHand images)
      (h : ImageFile.ofParts p = .ok f) : AtHand images f
  | file {I : Image} {f : ImageFile} (hI : I ∈ images) (hf : f ∈ I.files) : AtHand images f
  | withImport {f : ImageFile} (h : AtHand images f) (b : Bool) : AtHand images (f.withImport b)

namespace Image

/-- The images that one operation forms next to some images. -/
inductive Forms (images : List Image) : Image → Prop where
  | new {files : List ImageFile} {I : Image} (hf : ∀ f ∈ files, f.AtHand images)
      (h : ofFiles files = .ok I) : Forms images I
  | decode {bytes : Bytes} {options : DecodeOptions} {I : Image}
      (h : Image.decode bytes options = .ok I) : Forms images I
  | ofRequest {r : Request} {I : Image} (h : Image.ofRequest r = .ok I) : Forms images I
  | build {R : SourceReader} {options : BuildOptions} {I : Image}
      (h : Image.build R options = .ok I) : Forms images I
  | withoutImports {I : Image} (hI : I ∈ images) : Forms images I.withoutImports
  | narrow {I J : Image} {missing : Missing} {include_ exclude : List String} (hI : I ∈ images)
      (h : I.narrow missing include_ exclude = .ok J) : Forms images J
  | part {I J : Image} {parts : List Image} (hI : I ∈ images) (h : I.byDirectory = .ok parts)
      (hJ : J ∈ parts) : Forms images J
  | merge {given : List Image} {M : Image} (hI : ∀ I ∈ given, I ∈ images)
      (h : Image.merge given = .ok (some M)) : Forms images M
  | copy {I : Image} (hI : I ∈ images) : Forms images I

/-- A sequence of operations: the images that were modified in it and the images it formed, the last
one first. A pass that sets options leaves an image behind whether it succeeds or not. -/
inductive Run : List Image → List Image → Prop where
  | nil : Run [] []
  | form {modified images : List Image} {I : Image} (h : Run modified images)
      (hI : Forms images I) : Run modified (I :: images)
  | modify {modified images : List Image} {I : Image} (h : Run modified images) (hI : I ∈ images)
      (C : Managed.Config) : Run (I :: modified) ((Managed.modify I C).1 :: images)

variable {modified images : List Image} {I J : Image}

theorem atHand_kept {d : Descriptor} (hk : ∀ I ∈ images, I.Kept) (h : d.AtHand images) :
    d.Kept := by
  cases h with
  | read h => exact (decode_inStep h).kept
  | typed hm h => exact (ofTyped_inStep hm h).kept
  | file hI hf => exact hk _ hI _ hf

theorem atHand_valid {f : ImageFile} (hv : ∀ I ∈ images, I.Valid) (hk : ∀ I ∈ images, I.Kept)
    (h : f.AtHand images) : f.Valid ∧ f.descriptor.Kept := by
  induction h with
  | made hd h =>
    obtain ⟨hvalid, heq⟩ := ImageFile.ofParts_valid h
    exact ⟨hvalid, heq ▸ atHand_kept hk hd⟩
  | file hI hf => exact ⟨(hv _ hI).sound _ hf, hk _ hI _ hf⟩
  | withImport h b ih => exact ⟨ih.1.withImport b, ih.2⟩

/-- What an operation forms is an image of valid files, one of the images there were, or one without
its imports. -/
theorem forms_cases (hv : ∀ I ∈ images, I.Valid) (hk : ∀ I ∈ images, I.Kept)
    (h : Forms images J) : J.Made ∨ J ∈ images ∨ ∃ I ∈ images, J = I.withoutImports := by
  cases h with
  | new hf h => exact Or.inl ⟨_, h, fun f hm => atHand_valid hv hk (hf f hm)⟩
  | decode h => exact Or.inl (decode_made h)
  | ofRequest h => exact Or.inl (ofRequest_made h)
  | build h => exact Or.inl (build_made h)
  | withoutImports hI => exact Or.inr (Or.inr ⟨_, hI, rfl⟩)
  | narrow hI h =>
    rcases narrow_made (hv _ hI) (hk _ hI) h with rfl | hm
    · exact Or.inr (Or.inl hI)
    · exact Or.inl hm
  | part hI h hJ =>
    obtain ⟨dir, -, hn⟩ := mem_of_mapM h hJ
    rcases narrow_made (hv _ hI) (hk _ hI) hn with rfl | hm
    · exact Or.inr (Or.inl hI)
    · exact Or.inl hm
  | merge hI h =>
    rcases merge_made (fun I hm => hv I (hI I hm)) (fun I hm => hk I (hI I hm)) h with hm | hm
    · exact Or.inr (Or.inl (hI _ hm))
    · exact Or.inl hm
  | copy hI => exact Or.inr (Or.inl hI)

theorem forms_kept (hv : ∀ I ∈ images, I.Valid) (hk : ∀ I ∈ images, I.Kept)
    (h : Forms images J) : J.Kept := by
  rcases forms_cases hv hk h with hm | hJ | ⟨I, hI, rfl⟩
  · exact hm.kept
  · exact hk J hJ
  · exact fun f hf => hk I hI f ((List.filter_sublist.map _).subset hf)

theorem forms_valid (hv : ∀ I ∈ images, I.Valid) (hk : ∀ I ∈ images, I.Kept)
    (h : Forms images J) : J.Valid := by
  rcases forms_cases hv hk h with hm | hJ | ⟨I, hI, rfl⟩
  · exact hm.valid
  · exact hv J hJ
  · exact (hv I hI).withoutImports

theorem forms_inOrder (hv : ∀ I ∈ images, I.Valid) (hk : ∀ I ∈ images, I.Kept)
    (ho : ∀ I ∈ images, InOrder I.entries) (ha : Acyclic J.entries) (h : Forms images J) :
    InOrder J.entries := by
  rcases forms_cases hv hk h with hm | hJ | ⟨I, hI, rfl⟩
  · exact hm.inOrder ha
  · exact ho J hJ
  · exact (ho I hI).sublist (hv I hI).distinct List.filter_sublist

theorem Run.kept (h : Run modified images) (hs : ∀ I ∈ modified, I.Standard) :
    (∀ I ∈ images, I.Valid) ∧ ∀ I ∈ images, I.Kept := by
  induction h with
  | nil => simp
  | form _ hJ ih =>
    obtain ⟨hv, hk⟩ := ih hs
    exact ⟨List.forall_mem_cons.mpr ⟨forms_valid hv hk hJ, hv⟩,
      List.forall_mem_cons.mpr ⟨forms_kept hv hk hJ, hk⟩⟩
  | @modify _ _ I _ hI C ih =>
    obtain ⟨hs, hs'⟩ := List.forall_mem_cons.mp hs
    obtain ⟨hv, hk⟩ := ih hs'
    have hc : Changed I _ := Managed.modify_changed I C
    exact ⟨List.forall_mem_cons.mpr ⟨hc.valid (hk _ hI) hs (hv _ hI), hv⟩,
      List.forall_mem_cons.mpr ⟨hc.kept (hk _ hI), hk⟩⟩

theorem Run.inOrder (h : Run modified images) (hs : ∀ I ∈ modified, I.Standard)
    (ha : ∀ I ∈ images, Acyclic I.entries) : ∀ I ∈ images, InOrder I.entries := by
  induction h with
  | nil => simp
  | form h hJ ih =>
    obtain ⟨hacyclic, ha⟩ := List.forall_mem_cons.mp ha
    obtain ⟨hv, hk⟩ := h.kept hs
    have ho := ih hs ha
    exact List.forall_mem_cons.mpr ⟨forms_inOrder hv hk ho hacyclic hJ, ho⟩
  | @modify _ _ I h hI C ih =>
    obtain ⟨hs, hs'⟩ := List.forall_mem_cons.mp hs
    obtain ⟨-, ha⟩ := List.forall_mem_cons.mp ha
    obtain ⟨hv, hk⟩ := h.kept hs'
    have ho := ih hs' ha
    have hc : Changed I _ := Managed.modify_changed I C
    exact List.forall_mem_cons.mpr ⟨(ho I hI).sameImports (hc.sameImports (hk I hI) hs), ho⟩

/-- In a run that modifies only images of standard schemas every image is a valid one, and if none
of them has a cycle of imports, each lists every file behind its imports. -/
theorem run_sound (h : Run modified images) (hs : ∀ I ∈ modified, I.Standard) :
    (∀ I ∈ images, I.Valid) ∧
      ((∀ I ∈ images, Acyclic I.entries) → ∀ I ∈ images, InOrder I.entries) :=
  ⟨(h.kept hs).1, h.inOrder hs⟩

theorem exists_valid_decoded {bytes : Bytes} {options : DecodeOptions} {p : Image → Bool}
    (h : (Image.decode bytes options).toOption.map p = some true) :
    ∃ I, Image.decode bytes options = .ok I ∧ I.Valid ∧ p I = true := by
  obtain ⟨I, hI, hp⟩ := exists_of_toOption_map h
  exact ⟨I, hI, (decode_made hI).valid, hp⟩

/-- The bytes of a file as an image keeps them. -/
def storedFile (f : FileDecl) (isImport : Bool) : Bytes :=
  f.toMessage.encode ++ Message.encode [.known Storage.metadataField
    (.message [.known Storage.isImportField (Storage.flag isImport)])]

/-- The bytes of a file and of one that imports it. -/
def chain : Bytes :=
  Storage.encodeFiles
    [FileDecl.toMessage { name := "a.proto", dependencies := ["b.proto"] } |>.encode,
      FileDecl.toMessage { name := "b.proto" } |>.encode]

theorem standsInOrder_chain : (Image.decode chain { reparse := false }).toOption.map
    (fun I => standsInOrder I.entries) = some true := by
  decide +kernel

theorem run_sound_chain : ∃ I, Image.decode chain { reparse := false } = .ok I ∧
    ∀ J ∈ [(Managed.modify I {}).1, I], J.Valid ∧ InOrder J.entries := by
  obtain ⟨I, hI, -, ho⟩ := exists_valid_decoded standsInOrder_chain
  obtain ⟨hd, ho⟩ := standsInOrder_iff.mp ho
  have hk : I.Kept := (decode_made hI).kept
  have hs : I.Standard := fun f hf => (builtin_of_decode rfl hI f hf).standard
  have ha : SameImports I.entries (Managed.modify I {}).1.entries :=
    Changed.sameImports (Managed.modify_changed I {}) hk hs
  have hrun : Run [I] [(Managed.modify I {}).1, I] :=
    .modify (.form .nil (.decode hI)) (by simp) {}
  obtain ⟨hvalid, horder⟩ := run_sound hrun (by simpa using hs)
  have hall := horder (by
    simp only [List.forall_mem_cons, List.not_mem_nil, false_implies, implies_true, and_true]
    exact ⟨(ho.sameImports ha).acyclic (ha.keys_eq ▸ hd), ho.acyclic hd⟩)
  exact ⟨I, hI, fun J hJ => ⟨hvalid J hJ, hall J hJ⟩⟩

/-- The bytes of a file that declares descriptors with a single import each, and of a file with two
imports, the second of which it does not need. -/
def scant : Bytes :=
  let descriptor : MessageDecl :=
    { name := "FileDescriptorProto", fields := [one "name" 1 text, one "dependency" 3 text] }
  let unneeded : Message := [.known Storage.unusedField (.many [.scalar (.int32 1)])]
  Storage.encodeFiles
    [FileDecl.toMessage
      { name := "google/protobuf/descriptor.proto", package := some "google.protobuf"
        messages := [descriptor] } |>.encode,
      (FileDecl.toMessage { name := "a.proto", dependencies := ["b.proto", "c.proto"] }).encode ++
        Message.encode [.known Storage.metadataField (.message unneeded)]]

/-- Whether no index of an import that is not needed points past the imports. -/
def indexed (I : Image) : Bool := I.files.all fun f => f.unused.all (· < f.dependencies.length)

theorem indexed_scant : (Image.decode scant {}).toOption.map
    (fun I => !(Managed.modify I {}).1.indexed) = some true := by
  decide +kernel

/-- Without a standard schema, a pass may leave a file with fewer imports than it counts. -/
theorem modify_scant : ∃ I, Image.decode scant {} = .ok I ∧ I.Valid ∧
    ¬ (Managed.modify I {}).1.Valid := by
  obtain ⟨I, hI, hvalid, h⟩ := exists_valid_decoded indexed_scant
  refine ⟨I, hI, hvalid, fun hv => ?_⟩
  have hall : (Managed.modify I {}).1.indexed = true := by
    simp only [indexed, List.all_eq_true, decide_eq_true_eq]
    exact fun f hf i hi => (hv.sound f hf).unused_lt i hi
  simp [hall] at h

end Image
end DescriptorKit
