import DescriptorKit.Proofs.Image.Narrowed
import DescriptorKit.Proofs.Image.Requests

/-!
Merging as a union. What is found among the files merged so far is a function of the files that were
added: the target at a path, or else the first file there. So an image of several images has all
their files, and the order of these matters for nothing but which of several imports is taken.
-/
namespace DescriptorKit.Image

variable {images other : List Image} {files fs : List ImageFile} {f g : ImageFile} {I M N : Image}
  {path : String} {e : Error} {merged next : List (String × ImageFile)}

/-- The file that is to stand for a path: the first target there, or else the first file there. -/
def prevailing? (files : List ImageFile) (path : String) : Option ImageFile :=
  (files.find? fun f => f.path = path && !f.isImport).or (files.find? fun f => f.path = path)

theorem find?_cons (p : String) (g : ImageFile) (rest : List (String × ImageFile)) :
    find? ((p, g) :: rest) path = if p = path then some g else find? rest path := by
  rw [find?, List.find?_cons]
  split <;> simp_all [find?]

/-- What one more file makes of what was found at a path. -/
def meet (f : ImageFile) (found : Option ImageFile) : ImageFile :=
  match found with
  | none => f
  | some g => if g.isImport && !f.isImport then f else g

/-- A file that is added is met by the file found at its path; two targets do not go together. -/
theorem addFile_find? (f : ImageFile) (merged : List (String × ImageFile)) :
    (∃ next, addFile f merged = .ok next ∧
      (∀ g, find? merged f.path = some g → g.isImport ∨ f.isImport) ∧ ∀ path, find? next path =
        if f.path = path then some (meet f (find? merged path)) else find? merged path) ∨
    (addFile f merged = .error (.nonImportTwice f.path) ∧
      ∃ g, find? merged f.path = some g ∧ g.isImport = false ∧ f.isImport = false) := by
  induction merged with
  | nil => exact Or.inl ⟨[(f.path, f)], rfl, by simp [find?], fun path => find?_cons _ _ _⟩
  | cons a rest ih =>
    obtain ⟨p, g⟩ := a
    rw [addFile, find?_cons]
    by_cases hp : p = f.path
    · subst hp
      simp only [if_true, find?_cons]
      cases hg : g.isImport <;> cases hf : f.isImport
      · exact Or.inr ⟨rfl, g, rfl, hg, rfl⟩
      all_goals
        refine Or.inl ⟨_, rfl, by simp [hg], fun path => ?_⟩
        rw [find?_cons]
        split <;> simp [meet, hg, hf]
    · simp only [if_neg hp]
      rcases ih with ⟨next, ha, hi, hfind⟩ | ⟨ha, hg⟩
      · refine Or.inl ⟨(p, g) :: next, by rw [ha]; rfl, hi, fun path => ?_⟩
        rw [find?_cons, find?_cons, hfind]
        grind
      · exact Or.inr ⟨by rw [ha]; rfl, hg⟩

theorem prevailing?_concat : prevailing? (files ++ [f]) path =
    if f.path = path then some (meet f (prevailing? files path)) else prevailing? files path := by
  simp only [prevailing?, List.find?_append]
  by_cases hp : f.path = path
  · rw [if_pos hp]
    cases ht : files.find? fun g => g.path = path && !g.isImport with
    | some g =>
      have hg := List.find?_some ht
      simp only [Bool.and_eq_true, Bool.not_eq_true'] at hg
      simp [meet, hg.2]
    | none =>
      cases ha : files.find? fun g => g.path = path with
      | none => cases hf : f.isImport <;> simp [meet, hp, hf]
      | some g =>
        have hn := List.find?_eq_none.mp ht g (List.mem_of_find?_eq_some ha)
        have hgp : g.path = path := by simpa using List.find?_some ha
        have hg : g.isImport = true := by simpa [hgp] using hn
        cases hf : f.isImport <;> simp [meet, hp, hf, hg]
  · simp [hp]

theorem count_targetPaths_concat : (targetPaths (files ++ [f])).count path =
    (targetPaths files).count path + if f.isImport = false ∧ f.path = path then 1 else 0 := by
  rw [targetPaths, List.filter_append, List.map_append, List.count_append, targetPaths]
  cases hf : f.isImport <;> simp [hf, List.count_singleton]

theorem eq_of_targetPaths_nodup (hd : (targetPaths files).Nodup) (hf : f ∈ files)
    (hg : g ∈ files) (hfi : f.isImport = false) (hgi : g.isImport = false)
    (hp : f.path = g.path) : f = g :=
  List.inj_on_of_nodup_map hd (List.mem_filter.mpr ⟨hf, by simp [hfi]⟩)
    (List.mem_filter.mpr ⟨hg, by simp [hgi]⟩) hp

/-- A target prevails wherever it is; an import does where no target is and none comes before it. -/
theorem prevailing?_eq_some_iff (hd : (targetPaths files).Nodup) :
    prevailing? files path = some f ↔
      (f ∈ files ∧ f.isImport = false ∧ f.path = path) ∨
      (path ∉ targetPaths files ∧ First (·.path = path) files f) := by
  rw [prevailing?]
  cases ht : files.find? fun g => g.path = path && !g.isImport with
  | some g =>
    have hg := List.find?_some ht
    simp only [Bool.and_eq_true, decide_eq_true_eq, Bool.not_eq_true'] at hg
    have hm := List.mem_of_find?_eq_some ht
    have hin : path ∈ targetPaths files := mem_targetPaths_iff.mpr ⟨g, hm, hg.2, hg.1⟩
    simp only [Option.some_or, Option.some.injEq, hin, not_true, false_and, or_false]
    constructor
    · rintro rfl
      exact ⟨hm, hg.2, hg.1⟩
    · rintro ⟨hf, hfi, hp⟩
      exact eq_of_targetPaths_nodup hd hm hf hg.2 hfi (hg.1.trans hp.symm)
  | none =>
    have hin : path ∉ targetPaths files := by
      rw [mem_targetPaths_iff]
      rintro ⟨g, hg, hi, hp⟩
      have := List.find?_eq_none.mp ht g hg
      simp [hp, hi] at this
    simp only [Option.none_or, find?_eq_some_iff_first, decide_eq_true_eq, hin, not_false_eq_true,
      true_and]
    constructor
    · exact Or.inr
    · rintro (⟨hf, hi, hp⟩ | h)
      · exact absurd (mem_targetPaths_iff.mpr ⟨f, hf, hi, hp⟩) hin
      · exact h

/-- What the files merged so far are to those that were added: each path has the file that prevails
there, and no path is a target twice. -/
structure United (files : List ImageFile) (merged : List (String × ImageFile)) : Prop where
  found : ∀ path, find? merged path = prevailing? files path
  once : (targetPaths files).Nodup

theorem United.nil : United [] [] := ⟨fun _ => rfl, List.nodup_nil⟩

theorem United.add (h : United files merged) (f : ImageFile) :
    (∃ next, addFile f merged = .ok next ∧ United (files ++ [f]) next) ∨
    (addFile f merged = .error (.nonImportTwice f.path) ∧
      2 ≤ (targetPaths (files ++ [f])).count f.path) := by
  rcases addFile_find? f merged with ⟨next, ha, hi, hfind⟩ | ⟨ha, g, hg, hgi, hfi⟩
  · refine Or.inl ⟨next, ha, fun path => ?_, ?_⟩
    · rw [hfind, prevailing?_concat, h.found]
    · rw [List.nodup_iff_count_le_one]
      intro path
      have hle := List.nodup_iff_count_le_one.mp h.once path
      rw [count_targetPaths_concat]
      split
      case isFalse => omega
      case isTrue hf =>
        obtain ⟨hfi, rfl⟩ := hf
        have hn : f.path ∉ targetPaths files := by
          rw [mem_targetPaths_iff]
          rintro ⟨g, hg, hgi, hp⟩
          have hfound : find? merged f.path = some g := by
            rw [h.found, prevailing?_eq_some_iff h.once]
            exact Or.inl ⟨hg, hgi, hp⟩
          have := hi g hfound
          simp [hfi, hgi] at this
        have := List.count_eq_zero.mpr hn
        omega
  · refine Or.inr ⟨ha, ?_⟩
    rw [h.found, prevailing?_eq_some_iff h.once] at hg
    have hin : f.path ∈ targetPaths files := by
      rcases hg with ⟨hg, hi, hp⟩ | ⟨-, hg⟩
      · exact mem_targetPaths_iff.mpr ⟨g, hg, hi, hp⟩
      · obtain ⟨before, after, rfl, hp, -⟩ := hg
        exact mem_targetPaths_iff.mpr ⟨g, by simp, hgi, hp⟩
    have := List.count_pos_iff.mpr hin
    rw [count_targetPaths_concat, if_pos ⟨hfi, rfl⟩]
    omega

theorem United.run (h : United files merged) (fs : List ImageFile) :
    (∃ next, mergeFiles merged fs = .ok next ∧ United (files ++ fs) next) ∨
    ∃ path, mergeFiles merged fs = .error (.nonImportTwice path) ∧
      2 ≤ (targetPaths (files ++ fs)).count path := by
  induction fs generalizing files merged with
  | nil => exact Or.inl ⟨merged, rfl, by simpa using h⟩
  | cons f fs ih =>
    rw [mergeFiles, List.append_cons]
    rcases h.add f with ⟨next, ha, hn⟩ | ⟨ha, hc⟩
    · rw [ha]
      exact ih hn
    · refine Or.inr ⟨f.path, by rw [ha]; rfl, ?_⟩
      rw [targetPaths, List.filter_append, List.map_append, List.count_append]
      exact Nat.le_add_right_of_le hc

/-- A path is a target in two of the images. -/
def Contested (images : List Image) (path : String) : Prop :=
  ∃ I J, [I, J].Sublist images ∧ path ∈ I.targets ∧ path ∈ J.targets

/-- What is taken of several images: a target of one of them, and at a path that is a target of none
what the first image has there. -/
inductive Chosen (images : List Image) (f : ImageFile) : Prop
  | target (I : Image) (hI : I ∈ images) (hf : f ∈ I.files) (hi : f.isImport = false)
  | first (I : Image) (hI : First (f.path ∈ ·.paths) images I) (hf : f ∈ I.files)
      (hn : ∀ J ∈ images, f.path ∉ J.targets)

/-- Every file that one of the image imports is there. -/
def Closed (I : Image) : Prop :=
  ∀ f ∈ I.files, ∀ d ∈ f.dependencies, d ∈ I.paths

theorem Chosen.exists (h : Chosen images f) : ∃ I ∈ images, f ∈ I.files := by
  cases h with
  | target I hI hf hi => exact ⟨I, hI, hf⟩
  | first I hI hf hn =>
    obtain ⟨before, after, rfl, -⟩ := hI
    exact ⟨I, by simp, hf⟩

theorem Valid.targets_nodup (hv : I.Valid) : I.targets.Nodup := by
  have hd := hv.distinct
  rw [hv.paths_eq] at hd
  exact hd.sublist (List.filter_sublist.map _)

section Images

variable (hv : ∀ I ∈ images, I.Valid)
include hv

theorem contested_iff : Contested images path ↔ 2 ≤ (images.flatMap targets).count path := by
  induction images with
  | nil => simp [Contested]
  | cons I rest ih =>
    obtain ⟨hI, hrest⟩ := List.forall_mem_cons.mp hv
    have hle := List.nodup_iff_count_le_one.mp hI.targets_nodup path
    have hpos : 0 < I.targets.count path ↔ path ∈ I.targets := List.count_pos_iff
    have hrestpos : 0 < (rest.flatMap targets).count path ↔ ∃ J ∈ rest, path ∈ J.targets := by
      rw [List.count_pos_iff, List.mem_flatMap]
    rw [List.flatMap_cons, List.count_append]
    constructor
    · rintro ⟨J, K, hs, hJ, hK⟩
      rcases List.sublist_cons_iff.mp hs with hs | ⟨r, he, hr⟩
      · have := (ih hrest).mp ⟨J, K, hs, hJ, hK⟩
        omega
      · obtain ⟨rfl, rfl⟩ := List.cons_eq_cons.mp he
        have := hpos.mpr hJ
        have := hrestpos.mpr ⟨K, List.singleton_sublist.mp hr, hK⟩
        omega
    · intro h
      by_cases hin : path ∈ I.targets
      · obtain ⟨K, hK, hm⟩ := hrestpos.mp (by omega)
        exact ⟨I, K, (List.singleton_sublist.mpr hK).cons_cons I, hin, hm⟩
      · have := List.count_eq_zero.mpr hin
        obtain ⟨J, K, hs, hm⟩ := (ih hrest).mpr (by omega)
        exact ⟨J, K, hs.cons I, hm⟩

theorem targets_nodup_iff :
    (images.flatMap targets).Nodup ↔ ¬ ∃ path, Contested images path := by
  rw [List.nodup_iff_count_le_one]
  simp only [contested_iff hv, not_exists]
  exact forall_congr' fun path => by omega

/-- The first file at a path is that of the first image with the path. -/
theorem first_flatMap_iff : First (·.path = path) (images.flatMap (·.files)) f ↔
    f.path = path ∧ ∃ I, First (path ∈ ·.paths) images I ∧ f ∈ I.files := by
  have hfirst (l : List ImageFile) :
      First (·.path = path) l f ↔ l.find? (fun g => g.path = path) = some f := by
    simp [find?_eq_some_iff_first]
  have hnone (J : Image) (hJ : J ∈ images) :
      J.files.find? (fun g => g.path = path) = none ↔ path ∉ J.paths := by
    simp [(hv J hJ).paths_eq]
  rw [hfirst, List.find?_flatMap, List.findSome?_eq_some_iff]
  constructor
  · rintro ⟨before, I, after, rfl, hf, hb⟩
    have hp : f.path = path := by simpa using List.find?_some hf
    have hm := List.mem_of_find?_eq_some hf
    refine ⟨hp, I, ⟨before, after, rfl, ?_, fun J hJ => (hnone J (by simp [hJ])).mp (hb J hJ)⟩, hm⟩
    exact hp ▸ (hv I (by simp)).path_mem hm
  · rintro ⟨hp, I, ⟨before, after, rfl, hI, hb⟩, hf⟩
    refine ⟨before, I, after, rfl, ?_, fun J hJ => (hnone J (by simp [hJ])).mpr (hb J hJ)⟩
    cases hfind : I.files.find? (fun g => g.path = path) with
    | none => exact absurd hI ((hnone I (by simp)).mp hfind)
    | some g =>
      have hgp : g.path = path := by simpa using List.find?_some hfind
      have hg := List.mem_of_find?_eq_some hfind
      exact congrArg some ((hv I (by simp)).eq_of_path_eq hg hf (hgp.trans hp.symm))

/-- Among the files of several images the one that prevails at its path is the one chosen. -/
theorem prevailing?_flatMap_iff (hc : ¬ ∃ path, Contested images path) :
    prevailing? (images.flatMap (·.files)) f.path = some f ↔ Chosen images f := by
  have hd := (targets_nodup_iff hv).mpr hc
  rw [flatMap_targets] at hd
  rw [prevailing?_eq_some_iff hd, first_flatMap_iff hv, ← flatMap_targets]
  simp only [List.mem_flatMap, not_exists, not_and, and_true, true_and]
  constructor
  · rintro (⟨⟨I, hI, hf⟩, hi⟩ | ⟨hn, I, hI, hf⟩)
    · exact .target I hI hf hi
    · exact .first I hI hf hn
  · rintro (⟨I, hI, hf, hi⟩ | ⟨I, hI, hf, hn⟩)
    · exact Or.inl ⟨⟨I, hI, hf⟩, hi⟩
    · exact Or.inr ⟨hn, I, hI, hf⟩

end Images

/-- What merging several images comes to: the files are those chosen, at all paths of the images,
and as far as the images hold what their files import, so does the result. -/
structure Unites (images : List Image) (M : Image) : Prop where
  valid : M.Valid
  paths : ∀ path, path ∈ M.paths ↔ ∃ I ∈ images, path ∈ I.paths
  files : ∀ f, f ∈ M.files ↔ Chosen images f
  closed : (∀ I ∈ images, I.Closed) → M.Closed

theorem ofFiles_ne_nonImportTwice : ofFiles files ≠ .error (.nonImportTwice path) := by
  intro h
  rw [ofFiles] at h
  split at h
  · cases h
  · split at h
    · cases h
    · dsimp only at h
      split at h
      · obtain ⟨m, a, b, rfl, -⟩ := divided_of_conflict? ‹_›
        cases h
      · cases h

theorem merge_eq (h2 : 2 ≤ images.length) : merge images =
    (mergeFiles [] (images.flatMap (·.files))).bind fun merged =>
      (ofFiles (merged.map (·.2))).map some := by
  match images with
  | [] | [_] => simp at h2
  | I :: J :: rest => rfl

section Two

variable (hv : ∀ I ∈ images, I.Valid) (h2 : 2 ≤ images.length)
include hv h2

theorem merge_contested (hc : ∃ path, Contested images path) :
    ∃ path, Contested images path ∧ merge images = .error (.nonImportTwice path) := by
  rw [merge_eq h2]
  rcases United.nil.run (images.flatMap (·.files)) with ⟨merged, -, hu⟩ | ⟨path, hm, hp⟩
  · have hd := hu.once
    rw [List.nil_append, ← flatMap_targets, targets_nodup_iff hv] at hd
    exact absurd hc hd
  · rw [List.nil_append, ← flatMap_targets, ← contested_iff hv] at hp
    exact ⟨path, hp, by rw [hm]; rfl⟩

/-- Where no path is contested, the files chosen are those of which the result is made. -/
theorem merge_uncontested (hc : ¬ ∃ path, Contested images path) :
    ∃ chosen, (∀ f, f ∈ chosen ↔ Chosen images f) ∧ (chosen.map (·.path)).Nodup ∧
      (∀ path, path ∈ chosen.map (·.path) ↔ ∃ I ∈ images, path ∈ I.paths) ∧
      merge images = (ofFiles chosen).map some := by
  rw [merge_eq h2]
  rcases United.nil.run (images.flatMap (·.files)) with ⟨merged, hok, hu⟩ | ⟨path, -, hp⟩
  · have hm := mergeFiles_merged Merged.nil hok
    rw [List.nil_append] at hu hm
    have hkeys : (merged.map (·.2)).map (·.path) = keys merged := by
      rw [← keys_underPaths, underPaths_map_snd hm.keyed]
    refine ⟨merged.map (·.2), fun f => ?_, hkeys ▸ hm.distinct, fun path => ?_, by rw [hok]; rfl⟩
    · rw [← prevailing?_flatMap_iff hv hc, ← hu.found, find?_eq_some_iff hm.distinct]
      constructor
      · intro h
        obtain ⟨a, ha, rfl⟩ := List.mem_map.mp h
        exact hm.keyed a ha ▸ ha
      · exact fun h => List.mem_map_of_mem (f := Prod.snd) h
    · rw [hkeys]
      constructor
      · intro h
        obtain ⟨a, ha, rfl⟩ := List.mem_map.mp h
        obtain ⟨I, hI, hf⟩ := List.mem_flatMap.mp (hm.given a ha)
        exact ⟨I, hI, hm.keyed a ha ▸ (hv I hI).path_mem hf⟩
      · rintro ⟨I, hI, hp⟩
        rw [(hv I hI).paths_eq] at hp
        obtain ⟨f, hf, rfl⟩ := List.mem_map.mp hp
        obtain ⟨g, hg, -⟩ := hm.covered f (List.mem_flatMap.mpr ⟨I, hI, hf⟩)
        exact List.mem_map_of_mem (f := Prod.fst) hg
  · rw [List.nil_append, ← flatMap_targets, ← contested_iff hv] at hp
    exact absurd ⟨path, hp⟩ hc

theorem merge_eq_nonImportTwice (h : merge images = .error (.nonImportTwice path)) :
    Contested images path := by
  by_cases hc : ∃ path, Contested images path
  · obtain ⟨p, hp, he⟩ := merge_contested hv h2 hc
    rw [h] at he
    cases he
    exact hp
  · obtain ⟨chosen, -, -, -, he⟩ := merge_uncontested hv h2 hc
    rw [h] at he
    cases ho : ofFiles chosen with
    | ok M =>
      rw [ho] at he
      cases he
    | error e =>
      rw [ho] at he
      cases he
      exact absurd ho ofFiles_ne_nonImportTwice

theorem merge_unites (h : merge images = .ok (some M)) :
    (¬ ∃ path, Contested images path) ∧ Unites images M := by
  have hc : ¬ ∃ path, Contested images path := by
    intro hc
    obtain ⟨p, -, he⟩ := merge_contested hv h2 hc
    rw [h] at he
    cases he
  obtain ⟨chosen, hmem, -, hpaths, he⟩ := merge_uncontested hv h2 hc
  have hM : ofFiles chosen = .ok M := by
    rw [h] at he
    cases ho : ofFiles chosen with
    | error e => rw [ho] at he; cases he
    | ok N => rw [ho] at he; cases he; rfl
  have hfiles (f : ImageFile) : f ∈ M.files ↔ Chosen images f := by
    rw [mem_files_of_ofFiles hM, hmem]
  have hfrom (f : ImageFile) (hf : f ∈ M.files) : ∃ I ∈ images, f ∈ I.files :=
    ((hfiles f).mp hf).exists
  have hvalid : M.Valid := by
    refine ofFiles_valid hM fun f hf => ?_
    obtain ⟨I, hI, hf⟩ := ((hmem f).mp hf).exists
    exact (hv I hI).sound f hf
  have hunion (path : String) : path ∈ M.paths ↔ ∃ I ∈ images, path ∈ I.paths := by
    rw [hvalid.paths_eq, ← hpaths]
    simp only [List.mem_map, mem_files_of_ofFiles hM]
  refine ⟨hc, hvalid, hunion, hfiles, fun hclosed f hf d hd => ?_⟩
  obtain ⟨I, hI, hf⟩ := hfrom f hf
  exact (hunion d).mpr ⟨I, hI, hclosed I hI f hf d hd⟩

/-- Images that are no less than two and of which no path is contested have a union where there are
files at all and those chosen agree on the commits of their modules. -/
theorem merge_ok (hc : ¬ ∃ path, Contested images path) (hf : ∃ I ∈ images, I.files ≠ [])
    (ha : ∀ f g, Chosen images f → Chosen images g → ∀ m, f.module = some m → g.module = some m →
      f.commit = g.commit) : ∃ M, merge images = .ok (some M) := by
  obtain ⟨chosen, hmem, hd, hpaths, he⟩ := merge_uncontested hv h2 hc
  have hne : chosen ≠ [] := by
    rintro rfl
    obtain ⟨I, hI, hn⟩ := hf
    obtain ⟨f, hf⟩ := List.exists_mem_of_ne_nil _ hn
    simpa using (hpaths f.path).mpr ⟨I, hI, (hv I hI).path_mem hf⟩
  have hagree : Agree chosen := fun f hf g hg => ha f g ((hmem f).mp hf) ((hmem g).mp hg)
  rw [he, ofFiles_eq_ok_iff.mpr ⟨hne, hd, hagree, rfl⟩]
  exact ⟨_, rfl⟩

end Two

theorem Contested.perm (hp : other.Perm images) (hv : ∀ I ∈ images, I.Valid) :
    Contested other path ↔ Contested images path := by
  have hother : ∀ I ∈ other, I.Valid := fun I hI => hv I (hp.subset hI)
  rw [contested_iff hv, contested_iff hother, (hp.flatMap_right targets).count_eq]

/-- Two unions of the same images, in whatever order, have the same targets. -/
theorem Unites.isImport_eq (hM : Unites images M) (hN : Unites other N) (hp : other.Perm images)
    (hf : f ∈ M.files) (hg : g ∈ N.files) (he : f.path = g.path) : f.isImport = g.isImport := by
  have hkeep {images other : List Image} {M N : Image} {f g : ImageFile} (hM : Unites images M)
      (hN : Unites other N) (hs : images ⊆ other) (hf : f ∈ M.files) (hg : g ∈ N.files)
      (he : f.path = g.path) (hi : f.isImport = false) : g.isImport = false := by
    obtain ⟨I, hI, hfI⟩ := ((hM.files f).mp hf).exists
    have hfN : f ∈ N.files := (hN.files f).mpr (.target I (hs hI) hfI hi)
    rwa [← hN.valid.eq_of_path_eq hfN hg he]
  cases hi : f.isImport with
  | false => exact (hkeep hM hN hp.symm.subset hf hg he hi).symm
  | true =>
    by_contra hn
    have hj : g.isImport = false := by simpa using Ne.symm hn
    have := hkeep hN hM hp.subset hg hf he.symm hj
    simp [hi] at this

/-- Merging two or more images fails for a path just where the path is a target of two of them, and
gives their union otherwise, as long as there are files and those chosen agree on the commits of
their modules. The order of the images does not matter for whether a path is contested, nor for
which paths there are and which of them are targets. -/
theorem merge_union (hv : ∀ I ∈ images, I.Valid) (h2 : 2 ≤ images.length) :
    (∀ path, merge images = .error (.nonImportTwice path) → Contested images path) ∧
      ((∃ path, Contested images path) →
        ∃ path, merge images = .error (.nonImportTwice path)) ∧
      ((¬ ∃ path, Contested images path) → (∃ I ∈ images, I.files ≠ []) →
        (∀ f g, Chosen images f → Chosen images g →
          ∀ m, f.module = some m → g.module = some m → f.commit = g.commit) →
        ∃ M, merge images = .ok (some M)) ∧
      (∀ M, merge images = .ok (some M) → Unites images M) ∧
      ∀ other : List Image, other.Perm images →
        ((∃ path, merge other = .error (.nonImportTwice path)) ↔
          ∃ path, merge images = .error (.nonImportTwice path)) ∧
        ∀ M N, merge images = .ok (some M) → merge other = .ok (some N) →
          (∀ path, path ∈ M.paths ↔ path ∈ N.paths) ∧
          ∀ f ∈ M.files, ∀ g ∈ N.files, f.path = g.path → f.isImport = g.isImport := by
  have hfails {images : List Image} (hv : ∀ I ∈ images, I.Valid) (h2 : 2 ≤ images.length) :
      (∃ path, merge images = .error (.nonImportTwice path)) ↔ ∃ path, Contested images path := by
    constructor
    · rintro ⟨path, h⟩
      exact ⟨path, merge_eq_nonImportTwice hv h2 h⟩
    · intro hc
      obtain ⟨path, -, h⟩ := merge_contested hv h2 hc
      exact ⟨path, h⟩
  refine ⟨fun path => merge_eq_nonImportTwice hv h2, (hfails hv h2).mpr, merge_ok hv h2,
    fun M h => (merge_unites hv h2 h).2, fun other hp => ?_⟩
  have hvo : ∀ I ∈ other, I.Valid := fun I hI => hv I (hp.subset hI)
  have h2o : 2 ≤ other.length := by rwa [hp.length_eq]
  refine ⟨?_, fun M N hM hN => ?_⟩
  · rw [hfails hv h2, hfails hvo h2o]
    simp only [Contested.perm hp hv]
  · obtain ⟨-, uM⟩ := merge_unites hv h2 hM
    obtain ⟨-, uN⟩ := merge_unites hvo h2o hN
    refine ⟨fun path => ?_, fun f hf g hg => uM.isImport_eq uN hp hf hg⟩
    rw [uM.paths, uN.paths]
    exact exists_congr fun I => and_congr_left' hp.symm.mem_iff

/-- Whether the targets of an image are the given ones, and its files come without modules. -/
def aims (targets : List String) (I : Image) : Bool :=
  decide (I.targets = targets) && decide (∀ f ∈ I.files, f.module = none)

theorem aims_borrower :
    (Image.decode borrower { reparse := false }).toOption.map (aims ["c/z.proto"]) = some true := by
  decide +kernel

theorem aims_pair : (Image.decode pair { reparse := false }).toOption.map
    (aims ["b/y.proto", "a/x.proto"]) = some true := by
  decide +kernel

theorem merge_union_borrowed : ∃ I J, Image.decode borrower { reparse := false } = .ok I ∧
    Image.decode pair { reparse := false } = .ok J ∧ (∀ K ∈ [I, J], K.Valid) ∧ 2 ≤ [I, J].length ∧
      ∃ M, merge [I, J] = .ok (some M) ∧ Unites [I, J] M ∧
        ∃ f ∈ J.files, f.path = "b/y.proto" ∧ f.isImport = false ∧ f ∈ M.files := by
  obtain ⟨I, hI, hvI, haimI⟩ := exists_valid_decoded aims_borrower
  obtain ⟨J, hJ, hvJ, haimJ⟩ := exists_valid_decoded aims_pair
  simp only [aims, Bool.and_eq_true, decide_eq_true_eq] at haimI haimJ
  have hv : ∀ K ∈ [I, J], K.Valid := by simp [hvI, hvJ]
  obtain ⟨-, -, hok, hunites, -⟩ := merge_union hv (by simp)
  have hc : ¬ ∃ path, Contested [I, J] path := by
    rw [← targets_nodup_iff hv]
    simp [haimI.1, haimJ.1]
  have hnone : ∀ K ∈ [I, J], ∀ f ∈ K.files, f.module = none := by
    simpa using ⟨haimI.2, haimJ.2⟩
  obtain ⟨f, hf, hi, hp⟩ := mem_targets_iff.mp (show "b/y.proto" ∈ J.targets by simp [haimJ.1])
  obtain ⟨M, hM⟩ := hok hc ⟨J, by simp, List.ne_nil_of_mem hf⟩ fun f g hf _ m hm => by
    obtain ⟨K, hK, hf⟩ := hf.exists
    rw [hnone K hK f hf] at hm
    cases hm
  refine ⟨I, J, hI, hJ, hv, by simp, M, hM, hunites M hM, f, hf, hp, hi, ?_⟩
  exact ((hunites M hM).files _).mpr (.target J (by simp) hf hi)

end DescriptorKit.Image
