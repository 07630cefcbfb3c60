import DescriptorKit.Image.Request
import DescriptorKit.Proofs.Image.SplitMerge

/-!
Which files the requests of a batch ask for. Targets are asked for wherever they stand; an import is
asked for once, and only where no image of the batch has it as a target.
-/
namespace DescriptorKit

/-- A file at the path is asked for even where it is an import. -/
def RequestOptions.Takes (options : RequestOptions) (path : String) : Prop :=
  options.includeImports = true ∧
    (options.includeWellKnown = true ∨ WellKnown.isWellKnown path = false)

namespace Image

variable {I : Image} {images parts : List Image} {options : RequestOptions}
  {claimed targets : List String} {files : List ImageFile} {f : ImageFile} {path : String}

theorem generates_iff : generates options claimed targets f = true ↔
    f.isImport = false ∨ options.Takes f.path ∧ f.path ∉ claimed ∧ f.path ∉ targets := by
  simp [generates, RequestOptions.Takes, ImageFile.isWellKnown, and_assoc]

theorem generated_sublist :
    (generated options targets claimed files).Sublist (files.map (·.path)) := by
  induction files generalizing claimed with
  | nil => exact .slnil
  | cons f rest ih =>
    rw [generated]
    split
    · exact ih.cons_cons f.path
    · exact ih.cons f.path

/-- What was claimed among the files themselves does not matter, since their paths are distinct. -/
theorem generated_eq (hd : (files.map (·.path)).Nodup) : generated options targets claimed files =
    (files.filter (generates options claimed targets)).map (·.path) := by
  induction files generalizing claimed with
  | nil => rfl
  | cons f rest ih =>
    obtain ⟨hf, hrest⟩ := List.nodup_cons.mp hd
    have hclaimed : rest.filter (generates options (f.path :: claimed) targets) =
        rest.filter (generates options claimed targets) := by
      apply List.filter_congr
      intro g hg
      have hne : g.path ≠ f.path := fun he => hf (List.mem_map.mpr ⟨g, hg, he⟩)
      simp [generates, hne]
    rw [generated, List.filter_cons]
    split
    · rw [ih hrest, hclaimed, List.map_cons]
    · exact ih hrest

theorem mem_generated_iff (hd : (files.map (·.path)).Nodup) :
    path ∈ generated options targets claimed files ↔
      ∃ f ∈ files, f.path = path ∧ generates options claimed targets f = true := by
  rw [generated_eq hd, List.mem_map]
  simp only [List.mem_filter, and_assoc, and_comm]

theorem Valid.project_nodup (hv : I.Valid) :
    (I.project options claimed targets).filesToGenerate.Nodup := by
  have hd := hv.distinct
  rw [hv.paths_eq] at hd
  exact generated_sublist.nodup hd

/-- What the request for one image of a batch asks for. -/
theorem Valid.mem_project_iff (hv : I.Valid) :
    path ∈ (I.project options claimed targets).filesToGenerate ↔
      path ∈ I.targets ∨
        path ∈ I.paths ∧ options.Takes path ∧ path ∉ claimed ∧ path ∉ targets := by
  have hd := hv.distinct
  rw [hv.paths_eq] at hd
  rw [project, mem_generated_iff hd, hv.paths_eq, mem_targets_iff]
  constructor
  · rintro ⟨f, hf, rfl, h⟩
    rcases generates_iff.mp h with h | h
    · exact Or.inl ⟨f, hf, h, rfl⟩
    · exact Or.inr ⟨List.mem_map_of_mem hf, h⟩
  · rintro (⟨f, hf, h, rfl⟩ | ⟨hp, h⟩)
    · exact ⟨f, hf, rfl, generates_iff.mpr (Or.inl h)⟩
    · obtain ⟨f, hf, rfl⟩ := List.mem_map.mp hp
      exact ⟨f, hf, rfl, generates_iff.mpr (Or.inr h)⟩

theorem Valid.mem_request_iff (hv : I.Valid) : path ∈ (I.request options).filesToGenerate ↔
    path ∈ I.targets ∨ path ∈ I.paths ∧ options.Takes path := by
  rw [request, hv.mem_project_iff]
  simp

section Batch

variable (hv : ∀ I ∈ images, I.Valid)
include hv

/-- A run over the images of a batch. What was claimed before is not asked for again, unless it is
a target. -/
theorem requestsFrom_spec : List.Forall₂ (fun I r => r.filesToGenerate.Nodup ∧
    I.targets ⊆ r.filesToGenerate ∧
      ∀ path ∈ r.filesToGenerate, path ∈ I.targets ∨ path ∉ claimed ∧ path ∉ targets) images
    (requestsFrom options targets claimed images) := by
  induction images generalizing claimed with
  | nil => exact .nil
  | cons I rest ih =>
    have hI := hv I (by simp)
    rw [requestsFrom]
    refine .cons ⟨hI.project_nodup, fun path h => hI.mem_project_iff.mpr (Or.inl h),
      fun path h => ?_⟩ ?_
    · exact (hI.mem_project_iff.mp h).imp_right fun h => h.2.2
    · refine (ih fun J hJ => hv J (List.mem_cons_of_mem _ hJ)).imp fun J r h => ?_
      refine ⟨h.1, h.2.1, fun path hp => ?_⟩
      refine (h.2.2 path hp).imp_right fun h => ⟨fun hc => h.1 ?_, h.2⟩
      exact List.mem_append_right _ hc

/-- Two requests of a run have in common what is a target of both their images. -/
theorem requestsFrom_common (ht : ∀ I ∈ images, I.targets ⊆ targets) :
    (images.zip (requestsFrom options targets claimed images)).Pairwise fun a b => ∀ path,
      path ∈ a.2.filesToGenerate ∧ path ∈ b.2.filesToGenerate ↔
        path ∈ a.1.targets ∧ path ∈ b.1.targets := by
  induction images generalizing claimed with
  | nil => exact .nil
  | cons I rest ih =>
    have hI := hv I (by simp)
    have hrest : ∀ J ∈ rest, J.Valid := fun J hJ => hv J (List.mem_cons_of_mem _ hJ)
    rw [requestsFrom, List.zip_cons_cons]
    refine .cons (fun b hb path => ?_) (ih hrest fun J hJ => ht J (List.mem_cons_of_mem _ hJ))
    have hspec := List.forall₂_zip (requestsFrom_spec hrest) hb
    constructor
    · rintro ⟨ha, hb'⟩
      have hJ : path ∈ b.1.targets := by
        refine (hspec.2.2 path hb').resolve_right fun h => h.1 ?_
        exact List.mem_append_left _ ha
      have hpath : path ∈ targets := ht b.1 (List.mem_cons_of_mem _ (List.of_mem_zip hb).1) hJ
      exact ⟨(hI.mem_project_iff.mp ha).resolve_right fun h => h.2.2.2 hpath, hJ⟩
    · rintro ⟨ha, hb'⟩
      exact ⟨hI.mem_project_iff.mpr (Or.inl ha), hspec.2.1 hb'⟩

/-- What a run asks for as a whole. -/
theorem mem_requestsFrom_iff :
    (∃ r ∈ requestsFrom options targets claimed images, path ∈ r.filesToGenerate) ↔
      (∃ I ∈ images, path ∈ I.targets) ∨
        (∃ I ∈ images, path ∈ I.paths) ∧ options.Takes path ∧ path ∉ claimed ∧ path ∉ targets := by
  induction images generalizing claimed with
  | nil => simp [requestsFrom]
  | cons I rest ih =>
    have hI := hv I (by simp)
    have hrest : ∀ J ∈ rest, J.Valid := fun J hJ => hv J (List.mem_cons_of_mem _ hJ)
    rw [requestsFrom]
    simp only [List.exists_mem_cons_iff, ih hrest, hI.mem_project_iff, List.mem_append, not_or]
    grind

end Batch

theorem requests_eq :
    requests images options = requestsFrom options (images.flatMap (·.targets)) [] images := by
  rw [requests, flatMap_targets]
  rfl

section Batch

variable (hv : ∀ I ∈ images, I.Valid)
include hv

theorem length_requests : (requests images options).length = images.length := by
  rw [requests_eq]
  exact (requestsFrom_spec hv).length_eq.symm

theorem requests_common : (images.zip (requests images options)).Pairwise fun a b => ∀ path,
    path ∈ a.2.filesToGenerate ∧ path ∈ b.2.filesToGenerate ↔
      path ∈ a.1.targets ∧ path ∈ b.1.targets := by
  rw [requests_eq]
  exact requestsFrom_common hv fun I hI path hp => List.mem_flatMap.mpr ⟨I, hI, hp⟩

theorem requests_nodup : ∀ r ∈ requests images options, r.filesToGenerate.Nodup := by
  have hspec : List.Forall₂ (fun _ r => r.filesToGenerate.Nodup) images
      (requests images options) := by
    rw [requests_eq]
    exact (requestsFrom_spec hv).imp fun I r h => h.1
  intro r hr
  obtain ⟨i, hi, rfl⟩ := List.getElem_of_mem hr
  exact hspec.get (hspec.length_eq ▸ hi) hi

theorem mem_requests_iff : (∃ r ∈ requests images options, path ∈ r.filesToGenerate) ↔
    ∃ I ∈ images, path ∈ I.targets ∨ path ∈ I.paths ∧ options.Takes path := by
  rw [requests_eq, mem_requestsFrom_iff hv]
  simp only [List.mem_flatMap]
  grind

/-- A batch asks for a file once where no file is a target twice. -/
theorem nodup_requests (ht : (images.flatMap (·.targets)).Nodup) :
    ((requests images options).flatMap (·.filesToGenerate)).Nodup := by
  rw [List.nodup_flatMap] at ht ⊢
  refine ⟨requests_nodup hv, ?_⟩
  have hlen : (requests images options).length = images.length := length_requests hv
  have hpairs : (images.zip (requests images options)).Pairwise fun a b =>
      Function.onFun List.Disjoint targets a.1 b.1 := by
    refine List.pairwise_map.mp ?_
    rw [List.map_fst_zip hlen.ge]
    exact ht.2
  have hrequests := List.map_snd_zip hlen.le
  rw [← hrequests, List.pairwise_map]
  refine (requests_common hv).imp₂ (fun a b hcommon hd path ha hb => ?_) hpairs
  obtain ⟨ha, hb⟩ := (hcommon path).mp ⟨ha, hb⟩
  exact hd ha hb

end Batch

/-- There is one request for each image of a batch. It names no file twice, and two of them name in
common just what is a target of both images. -/
theorem requests_overlap (hv : ∀ I ∈ images, I.Valid) (options : RequestOptions) :
    (requests images options).length = images.length ∧
      (∀ r ∈ requests images options, r.filesToGenerate.Nodup) ∧
      (images.zip (requests images options)).Pairwise fun a b => ∀ path,
        path ∈ a.2.filesToGenerate ∧ path ∈ b.2.filesToGenerate ↔
          path ∈ a.1.targets ∧ path ∈ b.1.targets :=
  ⟨length_requests hv, requests_nodup hv, requests_common hv⟩

/-- The bytes of a single target. -/
def solo : Bytes := Storage.encodeFiles [storedFile { name := "a.proto" } false]

/-- The bytes of an image that has as an import what is a target of `pair`. -/
def borrower : Bytes :=
  Storage.encodeFiles [storedFile { name := "b/y.proto" } true,
    storedFile { name := "c/z.proto", dependencies := ["b/y.proto"] } false]

/-- Whether two copies of an image make requests that name a file twice. -/
def asksTwice (I : Image) : Bool :=
  decide (¬ ((requests [I, I] {}).flatMap (·.filesToGenerate)).Nodup)

theorem asksTwice_solo :
    (Image.decode solo { reparse := false }).toOption.map asksTwice = some true := by
  decide +kernel

theorem requests_overlap_solo : ∃ I J, Image.decode solo { reparse := false } = .ok I ∧
    Image.decode pair { reparse := false } = .ok J ∧ (∀ M ∈ [I, J], M.Valid) ∧
      (requests [I, J] {}).length = 2 ∧ ∀ r ∈ requests [I, J] {}, r.filesToGenerate.Nodup := by
  obtain ⟨I, hI, hvI, -⟩ := exists_valid_decoded asksTwice_solo
  obtain ⟨J, hJ, hvJ, -⟩ := exists_valid_decoded splittable_pair
  have hv : ∀ M ∈ [I, J], M.Valid := by simp [hvI, hvJ]
  exact ⟨I, J, hI, hJ, hv, (requests_overlap hv {}).1, (requests_overlap hv {}).2.1⟩

/-- A target of two images is named by both their requests. -/
theorem requests_twice_solo : ¬ ∀ (images : List Image) (options : RequestOptions),
    (∀ I ∈ images, I.Valid) →
      ((requests images options).flatMap (·.filesToGenerate)).Nodup := by
  intro h
  obtain ⟨I, -, hv, htwice⟩ := exists_valid_decoded asksTwice_solo
  exact of_decide_eq_true htwice (h [I, I] {} (by simp [hv]))

section Parts

variable (hv : I.Valid) (hs : List.Forall₂ I.PartOf I.directories parts)
include hv hs

theorem Valid.parts_targets_nodup : (parts.flatMap (·.targets)).Nodup := by
  rw [flatMap_targets, targetPaths, List.Nodup, List.pairwise_map, List.pairwise_filter]
  refine (hv.targets_once hs).imp fun h hf hg he => ?_
  rcases h he with h | h
  · simp [h] at hf
  · simp [h] at hg

theorem Valid.mem_parts_targets_iff :
    (∃ part ∈ parts, path ∈ part.targets) ↔ path ∈ I.targets := by
  simp only [Image.mem_targets_iff]
  constructor
  · rintro ⟨part, hpart, f, hf, hi, rfl⟩
    obtain ⟨dir, -, hp⟩ := part_of_mem hs hpart
    exact ⟨f, ((hp.mem_targets_iff hv).mp ⟨hf, hi⟩).1, hi, rfl⟩
  · rintro ⟨f, hf, hi, rfl⟩
    obtain ⟨part, hpart, hp⟩ := part_at hs
      (mem_directories_iff.mpr ⟨f.path, Image.mem_targets_iff.mpr ⟨f, hf, hi, rfl⟩, rfl⟩)
    exact ⟨part, hpart, f, ((hp.mem_targets_iff hv).mpr ⟨hf, hi, rfl⟩).1, hi, rfl⟩

theorem Valid.mem_parts_paths_iff :
    (∃ part ∈ parts, path ∈ part.paths) ↔ path ∈ I.paths ∧ I.Reached I.targets path := by
  constructor
  · rintro ⟨part, hpart, hm⟩
    obtain ⟨dir, -, hp⟩ := part_of_mem hs hpart
    rw [hp.1.paths_eq] at hm
    obtain ⟨g, hg, rfl⟩ := List.mem_map.mp hm
    obtain ⟨f, hf, hr, b, rfl⟩ := hp.original hg
    have hpath : f.path ∈ I.paths := hv.path_mem hf
    exact ⟨hpath, hr⟩
  · rintro ⟨hm, t, ht, hr⟩
    rw [hv.paths_eq] at hm
    obtain ⟨f, hf, rfl⟩ := List.mem_map.mp hm
    obtain ⟨part, hpart, hp⟩ := part_at hs (mem_directories_iff.mpr ⟨t, ht, rfl⟩)
    have hmem := (hp.2 _).mpr ⟨f, hf, ⟨t, mem_targetsIn_iff.mpr ⟨ht, rfl⟩, hr⟩, rfl⟩
    have hpath : (f.withImport _).path ∈ part.paths := hp.1.path_mem hmem
    exact ⟨part, hpart, hpath⟩

end Parts

/-- An image where no path lies below another gives the same files to generate code for, each once,
whether it is split by directory or not, as long as the targets need them. -/
theorem requests_byDirectory {I : Image} (hv : I.Valid)
    (hc : ∀ f ∈ I.files, ∀ g ∈ I.files, f.path ≠ g.path → Path.contains f.path g.path = false)
    (options : RequestOptions) :
    ∃ parts, I.byDirectory = .ok parts ∧
      ((requests parts options).flatMap (·.filesToGenerate)).Nodup ∧
      ∀ path, path ∈ (requests parts options).flatMap (·.filesToGenerate) ↔
        path ∈ (I.request options).filesToGenerate ∧ ∃ t ∈ I.files, t.isImport = false ∧
          Relation.ReflTransGen (Imports I.entries) t.path path := by
  obtain ⟨parts, hok, hs⟩ := hv.byDirectory_ok hc
  have hparts : ∀ part ∈ parts, part.Valid := fun part hpart => by
    obtain ⟨dir, -, hp⟩ := part_of_mem hs hpart
    exact hp.1
  have hreached : ∀ path, (∃ t ∈ I.files, t.isImport = false ∧
      Relation.ReflTransGen (Imports I.entries) t.path path) ↔ I.Reached I.targets path := by
    simp [Reached, mem_targets_iff, and_assoc]
  refine ⟨parts, hok, nodup_requests hparts (hv.parts_targets_nodup hs), fun path => ?_⟩
  rw [List.mem_flatMap, mem_requests_iff hparts, hv.mem_request_iff, hreached]
  constructor
  · rintro ⟨part, hpart, ht | ⟨hp, htakes⟩⟩
    · have ht := (hv.mem_parts_targets_iff hs).mp ⟨part, hpart, ht⟩
      exact ⟨Or.inl ht, path, ht, .refl⟩
    · obtain ⟨hp, hr⟩ := (hv.mem_parts_paths_iff hs).mp ⟨part, hpart, hp⟩
      exact ⟨Or.inr ⟨hp, htakes⟩, hr⟩
  · rintro ⟨ht | ⟨hp, htakes⟩, hr⟩
    · obtain ⟨part, hpart, ht⟩ := (hv.mem_parts_targets_iff hs).mpr ht
      exact ⟨part, hpart, Or.inl ht⟩
    · obtain ⟨part, hpart, hp⟩ := (hv.mem_parts_paths_iff hs).mpr ⟨hp, hr⟩
      exact ⟨part, hpart, Or.inr ⟨hp, htakes⟩⟩

theorem requests_byDirectory_pair : ∃ I, Image.decode pair { reparse := false } = .ok I ∧ I.Valid ∧
    ∃ parts, I.byDirectory = .ok parts ∧
      ((requests parts {}).flatMap (·.filesToGenerate)).Nodup := by
  obtain ⟨I, hI, hv, hs⟩ := exists_valid_decoded splittable_pair
  obtain ⟨parts, hok, hn, -⟩ := requests_byDirectory hv (splittable_iff.mp hs).2 {}
  exact ⟨I, hI, hv, parts, hok, hn⟩

open Bundled in
/-- The bytes of a file that declares the name of a descriptor as a message, and of one that imports
another. The name of the importing file reads as two values of one field, the first of which is
lost. -/
def respelled : Bytes :=
  let descriptor : MessageDecl :=
    { name := "FileDescriptorProto"
      fields := [one "name" 1 (message "Name"), many "dependency" 3 text,
        one "options" 8 (message "FileOptions")] }
  let name : MessageDecl := { name := "Name", fields := [one "last" 12 (.scalar .fixed64, none)] }
  let options : MessageDecl := { name := "FileOptions", fields := [one "go_package" 11 text] }
  Storage.encodeFiles
    [storedFile
      { name := "a/d.proto", package := some "google.protobuf"
        messages := [descriptor, name, options] } true,
      storedFile { name := "a/x.proto" } true,
      storedFile { name := "abcdefgh/a/b.proto", dependencies := ["a/x.proto"] } false]

/-- Whether an image splits into parts that do not ask for an import of a target that the request
for all of it asks for. -/
def forgets (path : String) (I : Image) : Bool :=
  I.splittable && I.files.any (fun t => !t.isImport && decide (path ∈ t.dependencies)) &&
    decide (path ∈ (I.request { includeImports := true }).filesToGenerate) &&
    I.byDirectory.toOption.any fun parts =>
      decide (path ∉ (requests parts { includeImports := true }).flatMap (·.filesToGenerate))

theorem forgets_respelled :
    (Managed.turned Managed.onlyGo respelled {}).map (forgets "a/x.proto") = some true := by
  decide +kernel

/-- Where the schema does not keep a name as it is spelled, a pass that succeeds may leave a target
under another path than its own. Split by directory, the image then forgets what the target
imports. -/
theorem not_requests_respelled : ∃ I J parts, Image.decode respelled {} = .ok I ∧
    Managed.Turns Managed.onlyGo I J ∧
    (∀ f ∈ J.files, ∀ g ∈ J.files, f.path ≠ g.path → Path.contains f.path g.path = false) ∧
    J.byDirectory = .ok parts ∧
    (∃ t ∈ J.files, t.isImport = false ∧ "a/x.proto" ∈ t.dependencies) ∧
    "a/x.proto" ∈ (J.request { includeImports := true }).filesToGenerate ∧
    "a/x.proto" ∉ (requests parts { includeImports := true }).flatMap (·.filesToGenerate) := by
  obtain ⟨I, J, hI, hturns, hJ⟩ := Managed.exists_turned forgets_respelled
  simp only [forgets, Bool.and_eq_true, splittable_iff, List.any_eq_true, decide_eq_true_eq,
    Bool.not_eq_true', Option.any_eq_true] at hJ
  obtain ⟨⟨⟨⟨-, hc⟩, ht⟩, hwhole⟩, parts, hparts, hpart⟩ := hJ
  exact ⟨I, J, parts, hI, hturns, hc, ok_of_toOption hparts, ht, hwhole, hpart⟩

end Image
end DescriptorKit
