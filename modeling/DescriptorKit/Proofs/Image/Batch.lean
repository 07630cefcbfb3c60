import DescriptorKit.Proofs.Image.Narrowed
import DescriptorKit.Proofs.Image.Requests

/-!
Which request of a batch asks for an import. What was claimed on the way comes, as far as it
matters, to the paths of the images that were dealt with: a path among these that was not claimed is
one that no request may ask for.
-/
namespace DescriptorKit.Image

variable {I : Image} {images : List Image} {options : RequestOptions}
  {claimed targets : List String} {f : ImageFile} {path : String} {k : Nat}

/-- The request for the image in place `k` of a batch asks for a file: it is a target, or an import
that may be asked for, is a target of no image and is in none of the images before. -/
def Asks (options : RequestOptions) (images : List Image) (k : Nat) (f : ImageFile) : Prop :=
  f.isImport = false ∨ options.Takes f.path ∧ (∀ J ∈ images, f.path ∉ J.targets) ∧
    ∀ J ∈ images.take k, f.path ∉ J.files.map (·.path)

instance (options : RequestOptions) (path : String) : Decidable (options.Takes path) :=
  inferInstanceAs (Decidable (_ ∧ _))

instance (options : RequestOptions) (images : List Image) (k : Nat) :
    DecidablePred (Asks options images k) :=
  fun f => inferInstanceAs (Decidable (f.isImport = false ∨ options.Takes f.path ∧
    (∀ J ∈ images, f.path ∉ J.targets) ∧ ∀ J ∈ images.take k, f.path ∉ J.files.map (·.path)))

section Open

variable (ht : options.Takes path) (hn : path ∉ targets)
include ht hn

/-- A path that may be asked for is claimed by the request for an image that holds it, unless it was
claimed before. -/
theorem mem_project_iff_of_takes (hd : (I.files.map (·.path)).Nodup) :
    path ∈ (I.project options claimed targets).filesToGenerate ++ claimed ↔
      path ∈ I.files.map (·.path) ∨ path ∈ claimed := by
  rw [List.mem_append, project, mem_generated_iff hd]
  constructor
  · rintro (⟨f, hf, rfl, -⟩ | hc)
    · exact Or.inl (List.mem_map_of_mem hf)
    · exact Or.inr hc
  · rintro (hm | hc)
    · obtain ⟨f, hf, rfl⟩ := List.mem_map.mp hm
      by_cases hc : f.path ∈ claimed
      · exact Or.inr hc
      · exact Or.inl ⟨f, hf, rfl, generates_iff.mpr (Or.inr ⟨ht, hc, hn⟩)⟩
    · exact Or.inr hc

theorem count_project (hd : (I.files.map (·.path)).Nodup) (hI : path ∉ I.targets) :
    (I.project options claimed targets).filesToGenerate.count path =
      if path ∈ I.files.map (·.path) ∧ path ∉ claimed then 1 else 0 := by
  have hmem : path ∈ (I.project options claimed targets).filesToGenerate ↔
      path ∈ I.files.map (·.path) ∧ path ∉ claimed := by
    rw [project, mem_generated_iff hd, List.mem_map]
    constructor
    · rintro ⟨f, hf, rfl, h⟩
      have hi : f.isImport ≠ false := fun hi => hI (mem_targets_iff.mpr ⟨f, hf, hi, rfl⟩)
      exact ⟨⟨f, hf, rfl⟩, ((generates_iff.mp h).resolve_left hi).2.1⟩
    · rintro ⟨⟨f, hf, rfl⟩, hc⟩
      exact ⟨f, hf, rfl, generates_iff.mpr (Or.inr ⟨ht, hc, hn⟩)⟩
  rw [← if_congr hmem rfl rfl]
  exact List.Nodup.count (generated_sublist.nodup hd)

end Open

theorem length_requestsFrom (options : RequestOptions) (targets claimed : List String)
    (images : List Image) : (requestsFrom options targets claimed images).length =
    images.length := by
  induction images generalizing claimed with
  | nil => rfl
  | cons I rest ih => rw [requestsFrom, List.length_cons, ih, List.length_cons]

/-- An import of an image is at the path of no target of it. -/
theorem project_targets (hd : (I.files.map (·.path)).Nodup) :
    I.project options claimed I.targets = I.project options claimed [] := by
  have hgenerates : I.files.filter (generates options claimed I.targets) =
      I.files.filter (generates options claimed []) := by
    apply List.filter_congr
    intro f hf
    have hi : f.path ∈ I.targets → f.isImport = false := by
      intro h
      obtain ⟨g, hg, hi, he⟩ := mem_targets_iff.mp h
      rwa [← List.inj_on_of_nodup_map hd hg hf he]
    rw [Bool.eq_iff_iff, generates_iff, generates_iff]
    cases himport : f.isImport with
    | false => simp
    | true =>
      have hn : f.path ∉ I.targets := fun h => by simpa [himport] using hi h
      simp [hn]
  rw [project, project, generated_eq hd, generated_eq hd, hgenerates]

section Batch

variable (hd : ∀ I ∈ images, (I.files.map (·.path)).Nodup)
include hd

/-- The request in place `k` of a run. Of the paths that may be asked for, those claimed by then are
those of the images before. -/
theorem requestsFrom_getElem? (options : RequestOptions) (targets claimed : List String)
    (h : images[k]? = some I) : ∃ earlier,
    (requestsFrom options targets claimed images)[k]? = some (I.project options earlier targets) ∧
      ∀ path, options.Takes path → path ∉ targets →
        (path ∈ earlier ↔ (∃ J ∈ images.take k, path ∈ J.files.map (·.path)) ∨ path ∈ claimed) := by
  induction images generalizing claimed k with
  | nil => simp at h
  | cons J rest ih =>
    obtain ⟨hJ, hrest⟩ := List.forall_mem_cons.mp hd
    rw [requestsFrom]
    cases k with
    | zero =>
      obtain rfl : J = I := by simpa using h
      exact ⟨claimed, rfl, by simp⟩
    | succ k =>
      obtain ⟨earlier, hr, hearlier⟩ := ih hrest _ (by simpa using h)
      refine ⟨earlier, by simpa using hr, fun path ht hn => ?_⟩
      rw [hearlier path ht hn, mem_project_iff_of_takes ht hn hJ, List.take_succ_cons,
        List.exists_mem_cons_iff]
      exact or_left_comm.trans or_assoc.symm

/-- A path that may be asked for and is a target of no image is asked for once, unless it was
claimed or is not there. -/
theorem count_requestsFrom (ht : options.Takes path) (hn : path ∉ targets)
    (hi : ∀ I ∈ images, path ∉ I.targets) :
    ((requestsFrom options targets claimed images).flatMap (·.filesToGenerate)).count path =
      if (∃ I ∈ images, path ∈ I.files.map (·.path)) ∧ path ∉ claimed then 1 else 0 := by
  induction images generalizing claimed with
  | nil => simp [requestsFrom]
  | cons I rest ih =>
    obtain ⟨hI, hrest⟩ := List.forall_mem_cons.mp hd
    obtain ⟨hiI, hirest⟩ := List.forall_mem_cons.mp hi
    rw [requestsFrom, List.flatMap_cons, List.count_append, count_project ht hn hI hiI,
      ih hrest hirest]
    simp only [mem_project_iff_of_takes ht hn hI, List.exists_mem_cons_iff]
    by_cases hc : path ∈ claimed
    · simp [hc]
    · by_cases hm : path ∈ I.files.map (·.path) <;> simp [hc, hm]

theorem requests_getElem? (h : images[k]? = some I) : (requests images options)[k]? = some
    { filesToGenerate := (I.files.filter fun f => Asks options images k f).map (·.path)
      parameter := options.parameter
      version := options.version
      descriptors := I.files.map (·.descriptor.encode) } := by
  obtain ⟨earlier, hr, hearlier⟩ := requestsFrom_getElem? hd options (images.flatMap targets) [] h
  rw [requests_eq, hr, project, generated_eq (hd I (List.mem_of_getElem? h))]
  have hasks : I.files.filter (generates options earlier (images.flatMap Image.targets)) =
      I.files.filter fun f => Asks options images k f := by
    apply List.filter_congr
    intro f hf
    rw [Bool.eq_iff_iff, generates_iff, decide_eq_true_eq, Asks]
    refine or_congr_right (and_congr_right fun ht => ?_)
    have htargets : f.path ∉ images.flatMap Image.targets ↔ ∀ J ∈ images, f.path ∉ J.targets := by
      simp
    rw [← htargets, and_comm]
    refine and_congr_right fun hn => ?_
    rw [hearlier f.path ht hn]
    simp
  rw [hasks]

end Batch

/-- The requests of a batch hold all files of their images. They ask for the targets, and for just
those imports that may be asked for, that are targets of no image and that none of the images before
has. So such an import is asked for once, on behalf of the first image that has it, and a batch of
one image has the request for it alone. -/
theorem requests_exact (hd : ∀ I ∈ images, (I.files.map (·.path)).Nodup)
    (options : RequestOptions) :
    (requests images options).length = images.length ∧
      (∀ (k : Nat) (I : Image), images[k]? = some I → (requests images options)[k]? = some
        { filesToGenerate := (I.files.filter fun f => Asks options images k f).map (·.path)
          parameter := options.parameter
          version := options.version
          descriptors := I.files.map (·.descriptor.encode) }) ∧
      (∀ path, options.Takes path → (∀ I ∈ images, path ∉ I.targets) →
        (∃ I ∈ images, path ∈ I.files.map (·.path)) →
          ((requests images options).flatMap (·.filesToGenerate)).count path = 1 ∧
          ∃ (k : Nat) (I : Image) (r : Request), images[k]? = some I ∧
            (requests images options)[k]? = some r ∧ path ∈ r.filesToGenerate ∧
            path ∈ I.files.map (·.path) ∧ ∀ J ∈ images.take k, path ∉ J.files.map (·.path)) ∧
      ∀ I, images = [I] → requests images options = [I.request options] := by
  refine ⟨?_, fun k I => requests_getElem? hd, fun path ht hi hex => ⟨?_, ?_⟩, ?_⟩
  · rw [requests_eq, length_requestsFrom]
  · have hn : path ∉ images.flatMap targets := by simpa using hi
    rw [requests_eq, count_requestsFrom hd ht hn hi, if_pos ⟨hex, by simp⟩]
  · obtain ⟨I, before, after, rfl, hI, hb⟩ := exists_first hex
    have hk : (before ++ I :: after)[before.length]? = some I := by simp
    have hb : ∀ J ∈ (before ++ I :: after).take before.length, path ∉ J.files.map (·.path) := by
      simpa using hb
    refine ⟨before.length, I, _, hk, requests_getElem? hd hk, ?_, hI, hb⟩
    obtain ⟨f, hf, rfl⟩ := List.mem_map.mp hI
    have hasks : Asks options (before ++ I :: after) before.length f := Or.inr ⟨ht, hi, hb⟩
    exact List.mem_map_of_mem (List.mem_filter.mpr ⟨hf, by simpa using hasks⟩)
  · rintro I rfl
    rw [requests_eq, List.flatMap_singleton, requestsFrom, requestsFrom, List.cons.injEq,
      project_targets (hd I (by simp))]
    exact ⟨rfl, rfl⟩

/-- Whether an image has paths apart and `b/y.proto` as an import. -/
def borrows (I : Image) : Bool :=
  decide ((I.files.map (·.path)).Nodup) && decide ("b/y.proto" ∈ I.files.map (·.path)) &&
    decide ("b/y.proto" ∉ I.targets)

theorem borrows_borrower :
    (Image.decode borrower { reparse := false }).toOption.map borrows = some true := by
  decide +kernel

theorem requests_exact_borrowed : ∃ I, Image.decode borrower { reparse := false } = .ok I ∧
    (∀ J ∈ [I, I], (J.files.map (·.path)).Nodup) ∧
      ((requests [I, I] { includeImports := true }).flatMap
        (·.filesToGenerate)).count "b/y.proto" = 1 := by
  obtain ⟨I, hI, -, h⟩ := exists_valid_decoded borrows_borrower
  simp only [borrows, Bool.and_eq_true, decide_eq_true_eq] at h
  obtain ⟨⟨hd, hmem⟩, ht⟩ := h
  have hd : ∀ J ∈ [I, I], (J.files.map (·.path)).Nodup := by simpa using hd
  obtain ⟨-, -, honce, -⟩ := requests_exact hd { includeImports := true }
  exact ⟨I, hI, hd, (honce "b/y.proto" (by decide) (by simpa using ht) ⟨I, by simp, hmem⟩).1⟩

/-- Whether a batch of one image asks for other files than the request for the image alone. -/
def differsAlone (I : Image) : Bool :=
  decide (requests [I] { includeImports := true } ≠ [I.request { includeImports := true }])

theorem differsAlone_unnamed :
    (Managed.turned Managed.onlyGo
      (unnamed { name := "x.proto", dialect := some "proto3" })
        {}).map differsAlone = some true := by
  decide +kernel

/-- Of a target and an import that a pass left without a name, a batch takes one for the other. -/
theorem not_requests_unnamed : ∃ I J,
    Image.decode (unnamed { name := "x.proto", dialect := some "proto3" }) {} = .ok I ∧
    Managed.Turns Managed.onlyGo I J ∧
    requests [J] { includeImports := true } ≠ [J.request { includeImports := true }] := by
  obtain ⟨I, J, hI, hturns, hJ⟩ := Managed.exists_turned differsAlone_unnamed
  exact ⟨I, J, hI, hturns, of_decide_eq_true hJ⟩

end DescriptorKit.Image
