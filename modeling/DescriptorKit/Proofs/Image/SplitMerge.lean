import DescriptorKit.Proofs.Image.Narrow
import DescriptorKit.Proofs.Managed.Commute
import Mathlib.Data.String.Basic

/-!
Splitting an image by directory and merging the parts again. The parts share their imports, and a
target of one may be an import in another; merging finds each file as it was.
-/
namespace DescriptorKit

section Repeats

variable {α : Type} [DecidableEq α] {l : List α} {a : α}

theorem mem_dropRepeats_iff : a ∈ dropRepeats l ↔ a ∈ l := by
  fun_induction dropRepeats l with
  | case1 => rfl
  | case2 => rfl
  | case3 b rest ih => simp [ih]
  | case4 b c rest hne ih =>
    rw [List.mem_cons, ih]
    simp

theorem dropRepeats_pairwise {r : α → α → Prop} (hl : l.Pairwise fun a b => r a b ∨ a = b)
    (ht : ∀ a b c, r a b → r b c → r a c) : (dropRepeats l).Pairwise r := by
  fun_induction dropRepeats l with
  | case1 => exact .nil
  | case2 b => simp
  | case3 b rest ih => exact ih (List.pairwise_cons.mp hl).2
  | case4 b c rest hne ih =>
    obtain ⟨hb, hl⟩ := List.pairwise_cons.mp hl
    refine List.pairwise_cons.mpr ⟨fun d hd => ?_, ih hl⟩
    have hbc : r b c := (hb c (by simp)).resolve_right hne
    rcases List.mem_cons.mp (mem_dropRepeats_iff.mp hd) with rfl | hd
    · exact hbc
    · rcases (List.pairwise_cons.mp hl).1 d hd with h | rfl
      · exact ht b c d hbc h
      · exact hbc

end Repeats

namespace Image

variable {I M : Image} {f g : ImageFile} {dir path : String} {parts : List Image}

/-- The paths of the targets. -/
def targets (I : Image) : List String := (I.files.filter fun f => !f.isImport).map (·.path)

/-- The paths of the targets among some files. -/
def targetPaths (files : List ImageFile) : List String :=
  (files.filter fun f => !f.isImport).map (·.path)

theorem mem_targetPaths_iff {files : List ImageFile} :
    path ∈ targetPaths files ↔ ∃ f ∈ files, f.isImport = false ∧ f.path = path := by
  simp [targetPaths, and_assoc]

theorem mem_targets_iff : path ∈ I.targets ↔ ∃ f ∈ I.files, f.isImport = false ∧ f.path = path :=
  mem_targetPaths_iff

theorem flatMap_targets (images : List Image) :
    images.flatMap targets = targetPaths (images.flatMap (·.files)) := by
  rw [targetPaths, List.filter_flatMap, List.map_flatMap]
  rfl

theorem mem_directories_iff : dir ∈ I.directories ↔ ∃ path ∈ I.targets, Path.dir path = dir := by
  simp [directories, mem_dropRepeats_iff, mem_targets_iff]

theorem mem_targetsIn_iff : path ∈ I.targetsIn dir ↔ path ∈ I.targets ∧ Path.dir path = dir := by
  simp [targetsIn, targets]

theorem directories_ascending (I : Image) : I.directories.Pairwise (· < ·) := by
  apply dropRepeats_pairwise
  · refine (List.pairwise_mergeSort (fun a b c hab hbc => ?_) (fun a b => ?_) _).imp fun h => by
      simpa using h
    · simp only [Bool.or_eq_true, decide_eq_true_eq] at hab hbc ⊢
      rcases hab with hab | rfl
      · rcases hbc with hbc | rfl
        · exact Or.inl (lt_trans hab hbc)
        · exact Or.inl hab
      · exact hbc
    · simp only [Bool.or_eq_true, decide_eq_true_eq]
      rcases lt_trichotomy a b with h | h | h
      · exact Or.inl (Or.inl h)
      · exact Or.inl (Or.inr h)
      · exact Or.inr (Or.inl h)
  · exact fun a b c => lt_trans

/-- What the part of a directory holds: all files reached from the targets there, which alone are
its targets. -/
def PartOf (I : Image) (dir : String) (part : Image) : Prop :=
  part.Valid ∧ ∀ g, g ∈ part.files ↔ ∃ f ∈ I.files, I.Reached (I.targetsIn dir) f.path ∧
    g = f.withImport (!((I.targetsIn dir).contains f.path))

section Split

variable (hv : I.Valid)
  (hc : ∀ f ∈ I.files, ∀ g ∈ I.files, f.path ≠ g.path → Path.contains f.path g.path = false)
include hv hc

theorem Valid.part_ok (hd : dir ∈ I.directories) :
    ∃ part, I.narrow .refused (I.targetsIn dir) [] = .ok part ∧ I.PartOf dir part := by
  obtain ⟨path, hp, hdir⟩ := mem_directories_iff.mp hd
  have hne : I.targetsIn dir ≠ [] := List.ne_nil_of_mem (mem_targetsIn_iff.mpr ⟨hp, hdir⟩)
  have hs : I.targetsIn dir ⊆ I.paths := fun p h => by
    obtain ⟨f, hf, -, rfl⟩ := mem_targets_iff.mp (mem_targetsIn_iff.mp h).1
    exact hv.path_mem hf
  obtain ⟨part, hok, hm⟩ := hv.narrow_paths hne hs hc
  exact ⟨part, hok, narrow_valid hv hok, hm⟩

theorem Valid.byDirectory_ok :
    ∃ parts, I.byDirectory = .ok parts ∧ List.Forall₂ I.PartOf I.directories parts := by
  have : ∀ dirs, (∀ dir ∈ dirs, dir ∈ I.directories) → ∃ parts,
      dirs.mapM (fun dir => I.narrow .refused (I.targetsIn dir) []) = .ok parts ∧
        List.Forall₂ I.PartOf dirs parts := by
    intro dirs
    induction dirs with
    | nil => exact fun _ => ⟨[], rfl, .nil⟩
    | cons dir dirs ih =>
      intro hd
      obtain ⟨part, hok, hp⟩ := hv.part_ok hc (hd dir (by simp))
      obtain ⟨parts, hoks, hps⟩ := ih fun d h => hd d (List.mem_cons_of_mem _ h)
      refine ⟨part :: parts, ?_, .cons hp hps⟩
      rw [List.mapM_cons, hok, hoks]
      rfl
  exact this I.directories fun _ h => h

end Split

theorem PartOf.original {part : Image} (hp : I.PartOf dir part) (h : g ∈ part.files) :
    ∃ f ∈ I.files, I.Reached I.targets f.path ∧ ∃ b, g = f.withImport b := by
  obtain ⟨f, hf, hr, rfl⟩ := (hp.2 g).mp h
  exact ⟨f, hf, hr.mono fun p h => (mem_targetsIn_iff.mp h).1, _, rfl⟩

/-- The targets of a part are the targets of its directory, as they were. -/
theorem PartOf.mem_targets_iff (hv : I.Valid) {part : Image} (hp : I.PartOf dir part) :
    (g ∈ part.files ∧ g.isImport = false) ↔
    g ∈ I.files ∧ g.isImport = false ∧ Path.dir g.path = dir := by
  rw [hp.2]
  constructor
  · rintro ⟨⟨f, hf, -, rfl⟩, hi⟩
    have hm : f.path ∈ I.targetsIn dir := by simpa [ImageFile.withImport] using hi
    obtain ⟨ht, hdir⟩ := mem_targetsIn_iff.mp hm
    obtain ⟨f', hf', hi', he⟩ := Image.mem_targets_iff.mp ht
    obtain rfl := hv.eq_of_path_eq hf' hf he
    rw [ImageFile.withImport_self (by simpa [hi'] using hm)]
    exact ⟨hf, hi', hdir⟩
  · rintro ⟨hf, hi, hdir⟩
    have hm : g.path ∈ I.targetsIn dir :=
      mem_targetsIn_iff.mpr ⟨Image.mem_targets_iff.mpr ⟨g, hf, hi, rfl⟩, hdir⟩
    exact ⟨⟨g, hf, ⟨g.path, hm, .refl⟩, by
      rw [ImageFile.withImport_self (by simpa [hi] using hm)]⟩, hi⟩

theorem part_of_mem (hs : List.Forall₂ I.PartOf I.directories parts) {part : Image}
    (h : part ∈ parts) : ∃ dir ∈ I.directories, I.PartOf dir part := by
  obtain ⟨i, hi, rfl⟩ := List.getElem_of_mem h
  have hlen := hs.length_eq
  exact ⟨_, List.getElem_mem (by omega), hs.get (by omega) hi⟩

theorem part_at (hs : List.Forall₂ I.PartOf I.directories parts) (h : dir ∈ I.directories) :
    ∃ part ∈ parts, I.PartOf dir part := by
  obtain ⟨i, hi, rfl⟩ := List.getElem_of_mem h
  have hlen := hs.length_eq
  exact ⟨_, List.getElem_mem (by omega), hs.get hi (by omega)⟩

section Merge

variable (hv : I.Valid) (hs : List.Forall₂ I.PartOf I.directories parts)
include hv hs

/-- No path is a target in two parts, since it lies in one directory only. -/
theorem Valid.targets_once :
    (parts.flatMap (·.files)).Pairwise fun f g => f.path = g.path → f.isImport ∨ g.isImport := by
  have hstep : ∀ dirs parts, List.Forall₂ I.PartOf dirs parts → dirs.Nodup →
      (parts.flatMap (·.files)).Pairwise fun f g => f.path = g.path → f.isImport ∨ g.isImport := by
    intro dirs parts h hd
    induction h with
    | nil => exact .nil
    | @cons dir part dirs parts hp hps ih =>
      obtain ⟨hn, hd⟩ := List.nodup_cons.mp hd
      rw [List.flatMap_cons, List.pairwise_append]
      refine ⟨?_, ih hd, fun f hf g hg he => ?_⟩
      · have hpd := hp.1.distinct
        rw [hp.1.paths_eq] at hpd
        exact (List.pairwise_map.mp hpd).imp fun hne he => absurd he hne
      · by_contra hi
        simp only [not_or, Bool.not_eq_true] at hi
        obtain ⟨part', hm, hg⟩ := List.mem_flatMap.mp hg
        obtain ⟨i, hi', rfl⟩ := List.getElem_of_mem hm
        have hlen := hps.length_eq
        have hp' : I.PartOf dirs[i] parts[i] := hps.get (by omega) hi'
        have h₁ := ((hp.mem_targets_iff hv).mp ⟨hf, hi.1⟩).2.2
        have h₂ := ((hp'.mem_targets_iff hv).mp ⟨hg, hi.2⟩).2.2
        apply hn
        rw [← h₁, he, h₂]
        exact List.getElem_mem _
  refine hstep I.directories parts hs ?_
  exact (directories_ascending I).imp fun h => h.ne

/-- However the files of the parts are merged, each comes out as it was. -/
theorem Valid.mem_merged_iff {merged : List (String × ImageFile)}
    (hm : Merged (parts.flatMap (·.files)) merged) :
    g ∈ merged.map (·.2) ↔ g ∈ I.files ∧ I.Reached I.targets g.path := by
  have horiginal : ∀ e ∈ merged, e.2 ∈ I.files ∧ I.Reached I.targets e.2.path := by
    intro e he
    obtain ⟨part, hpart, hg⟩ := List.mem_flatMap.mp (hm.given e he)
    obtain ⟨dir, -, hp⟩ := part_of_mem hs hpart
    obtain ⟨f, hf, hr, b, heq⟩ := hp.original hg
    have hpath : e.2.path = f.path := by rw [heq]; rfl
    cases hi : e.2.isImport with
    | false =>
      have := ((hp.mem_targets_iff hv).mp ⟨hg, hi⟩).1
      exact ⟨this, hpath ▸ hr⟩
    | true =>
      -- were it a target before, the part of its directory would have it as a target
      have hf' : f.isImport = true := by
        by_contra hn
        rw [Bool.not_eq_true] at hn
        have ht : f.path ∈ I.targets := mem_targets_iff.mpr ⟨f, hf, hn, rfl⟩
        obtain ⟨part', hpart', hp'⟩ :=
          part_at hs (mem_directories_iff.mpr ⟨f.path, ht, rfl⟩)
        have hmem := ((hp'.mem_targets_iff hv).mpr ⟨hf, hn, rfl⟩).1
        obtain ⟨g', hg', hi'⟩ := hm.covered f (List.mem_flatMap.mpr ⟨part', hpart', hmem⟩)
        have he' : (f.path, g') = e := eq_of_key_eq hm.distinct hg' he
          (hpath ▸ (hm.keyed e he).symm)
        subst he'
        simp only [hn, Bool.false_eq_true, imp_false, Bool.not_eq_true] at hi'
        exact absurd hi (by simp [hi'])
      have hb : b = true := by rw [heq] at hi; exact hi
      rw [heq, ImageFile.withImport_self (hf'.trans hb.symm)]
      exact ⟨hf, hr⟩
  constructor
  · intro h
    obtain ⟨e, he, rfl⟩ := List.mem_map.mp h
    exact horiginal e he
  · rintro ⟨hg, t, ht, hr⟩
    obtain ⟨part, hpart, hp⟩ := part_at hs (mem_directories_iff.mpr ⟨t, ht, rfl⟩)
    have hmem := (hp.2 _).mpr ⟨g, hg, ⟨t, mem_targetsIn_iff.mpr ⟨ht, rfl⟩, hr⟩, rfl⟩
    obtain ⟨g', hg', -⟩ := hm.covered _ (List.mem_flatMap.mpr ⟨part, hpart, hmem⟩)
    have hkey : g.path = g'.path := hm.keyed _ hg'
    have := hv.eq_of_path_eq hg (horiginal _ hg').1 hkey
    exact List.mem_map.mpr ⟨_, hg', this.symm⟩

theorem Valid.merge_parts_ok (hn : parts ≠ []) :
    ∃ M, merge parts = .ok (some M) ∧ Merged (parts.flatMap (·.files)) M.entries := by
  rcases parts with - | ⟨part, - | ⟨other, parts⟩⟩
  · exact absurd rfl hn
  · obtain ⟨dir, -, hp⟩ := part_of_mem hs (show part ∈ _ by simp)
    refine ⟨part, rfl, hp.1.keyed, hp.1.distinct, fun e he => ?_, fun f hf => ?_⟩
    · have : e.2 ∈ part.files := List.mem_map_of_mem he
      simpa using this
    · exact ⟨f, hp.1.mem_entries (by simpa using hf), id⟩
  · obtain ⟨merged, hok⟩ := mergeFiles_ok Merged.nil (hv.targets_once hs)
    have hm := mergeFiles_merged Merged.nil hok
    rw [List.nil_append] at hm
    have hsub : ∀ f ∈ merged.map (·.2), f ∈ I.files := fun f hf =>
      ((hv.mem_merged_iff hs hm).mp hf).1
    have hfiles : ofFiles (merged.map (·.2)) = .ok ⟨sort merged⟩ := by
      refine ofFiles_eq_ok_iff.mpr ⟨?_, ?_, hv.agree.mono hsub, ?_⟩
      · intro he
        obtain ⟨dir, hdir, hp⟩ := part_of_mem hs (show part ∈ _ by simp)
        obtain ⟨p, hp', rfl⟩ := mem_directories_iff.mp hdir
        obtain ⟨f, hf, hi, rfl⟩ := mem_targets_iff.mp hp'
        have : f ∈ merged.map (·.2) := (hv.mem_merged_iff hs hm).mpr
          ⟨hf, f.path, mem_targets_iff.mpr ⟨f, hf, hi, rfl⟩, .refl⟩
        rw [he] at this
        cases this
      · rw [← keys_underPaths, underPaths_map_snd hm.keyed]
        exact hm.distinct
      · rw [underPaths_map_snd hm.keyed]
    refine ⟨⟨sort merged⟩, ?_, ?_⟩
    · change (mergeFiles [] ((part :: other :: parts).flatMap (·.files))).bind
        (fun merged => (ofFiles (merged.map (·.2))).bind fun I => .ok (some I)) = _
      rw [List.flatMap, hok]
      dsimp only [Except.bind]
      rw [hfiles]
    · have hperm := sort_perm hm.distinct
      refine ⟨fun e he => hm.keyed e (hperm.subset he), (hperm.map _).nodup_iff.mpr hm.distinct,
        fun e he => hm.given e (hperm.subset he), fun f hf => ?_⟩
      obtain ⟨g, hg, hi⟩ := hm.covered f hf
      exact ⟨g, hperm.symm.subset hg, hi⟩

end Merge

/-- An image where no path lies below another splits by directory. There is a part for each
directory that holds a target, in ascending order, and its targets are those of the directory.
Merged again, the parts give the files reached from the targets, as they were. -/
theorem split_merge (hv : I.Valid) (ht : ∃ f ∈ I.files, f.isImport = false)
    (hc : ∀ f ∈ I.files, ∀ g ∈ I.files, f.path ≠ g.path → Path.contains f.path g.path = false) :
    ∃ parts M, I.byDirectory = .ok parts ∧ merge parts = .ok (some M) ∧
      I.directories.Pairwise (· < ·) ∧
      (∀ dir, dir ∈ I.directories ↔ ∃ f ∈ I.files, f.isImport = false ∧ Path.dir f.path = dir) ∧
      List.Forall₂ (fun dir part => ∀ f, (f ∈ part.files ∧ f.isImport = false) ↔
        (f ∈ I.files ∧ f.isImport = false ∧ Path.dir f.path = dir)) I.directories parts ∧
      M.paths.Nodup ∧
      ∀ f, f ∈ M.files ↔ f ∈ I.files ∧ ∃ t ∈ I.files, t.isImport = false ∧
        Relation.ReflTransGen (Imports I.entries) t.path f.path := by
  obtain ⟨parts, hok, hs⟩ := hv.byDirectory_ok hc
  have hdirs : ∀ dir, dir ∈ I.directories ↔
      ∃ f ∈ I.files, f.isImport = false ∧ Path.dir f.path = dir := by
    intro dir
    simp [mem_directories_iff, mem_targets_iff, and_assoc]
  have hne : parts ≠ [] := by
    rintro rfl
    obtain ⟨f, hf, hi⟩ := ht
    obtain ⟨part, hm, -⟩ := part_at hs ((hdirs (Path.dir f.path)).mpr ⟨f, hf, hi, rfl⟩)
    cases hm
  obtain ⟨M, hM, hm⟩ := hv.merge_parts_ok hs hne
  refine ⟨parts, M, hok, hM, directories_ascending I, hdirs, ?_, hm.distinct, fun f => ?_⟩
  · exact hs.imp fun dir part hp f => hp.mem_targets_iff hv
  · rw [files, hv.mem_merged_iff hs hm]
    simp [Reached, mem_targets_iff, and_assoc]

/-- The bytes of two targets in directories of their own, one of which imports the other. -/
def pair : Bytes :=
  Storage.encodeFiles [storedFile { name := "b/y.proto" } false,
    storedFile { name := "a/x.proto", dependencies := ["b/y.proto"] } false]

/-- Whether an image has a target, and no path of it lies below another one. -/
def splittable (I : Image) : Bool :=
  I.files.any (fun f => !f.isImport) &&
    decide (∀ f ∈ I.files, ∀ g ∈ I.files, f.path ≠ g.path → Path.contains f.path g.path = false)

theorem splittable_iff : I.splittable = true ↔ (∃ f ∈ I.files, f.isImport = false) ∧
    ∀ f ∈ I.files, ∀ g ∈ I.files, f.path ≠ g.path → Path.contains f.path g.path = false := by
  simp [splittable]

theorem splittable_pair :
    (Image.decode pair { reparse := false }).toOption.map splittable = some true := by
  decide +kernel

theorem split_merge_pair : ∃ I, Image.decode pair { reparse := false } = .ok I ∧ I.Valid ∧
    ∃ parts M, I.byDirectory = .ok parts ∧ merge parts = .ok (some M) ∧
      ∀ f, f ∈ M.files ↔ f ∈ I.files ∧ ∃ t ∈ I.files,
        t.isImport = false ∧ Relation.ReflTransGen (Imports I.entries) t.path f.path := by
  obtain ⟨I, hI, hv, hs⟩ := exists_valid_decoded splittable_pair
  obtain ⟨ht, hc⟩ := splittable_iff.mp hs
  obtain ⟨parts, M, hok, hM, -, -, -, -, hm⟩ := split_merge hv ht hc
  exact ⟨I, hI, hv, parts, M, hok, hM, hm⟩

open Bundled in
/-- The bytes of a file that declares descriptors with name and dialect in one oneof, of a file `x`,
and of one that imports `x` and states its dialect. -/
def unnamed (x : FileDecl) : Bytes :=
  let descriptor : MessageDecl :=
    { name := "FileDescriptorProto"
      fields := [inOneof (one "name" 1 text) 0, many "dependency" 3 text,
        one "options" 8 (message "FileOptions"), inOneof (one "syntax" 12 text) 0]
      oneofs := [⟨"identity", none⟩] }
  let options : MessageDecl := { name := "FileOptions", fields := [one "go_package" 11 text] }
  Storage.encodeFiles
    [storedFile
      { name := "google/protobuf/descriptor.proto", package := some "google.protobuf"
        messages := [descriptor, options] } true,
      storedFile x true,
      storedFile { name := "a.proto", dependencies := [x.name], dialect := some "proto3" } false]

/-- Whether an image has files under paths apart and still does not split. -/
def unsplit (I : Image) : Bool :=
  decide ((I.files.map (·.path)).Nodup) && I.splittable && I.byDirectory.toOption.isNone

theorem unsplit_unnamed :
    (Managed.turned Managed.onlyGo (unnamed { name := "x.proto" }) {}).map unsplit = some true := by
  decide +kernel

/-- Where the schema keeps no name beside a dialect, a pass that succeeds may leave a file without
one, and then the image does not split. -/
theorem not_split_unnamed : ∃ I J, Image.decode (unnamed { name := "x.proto" }) {} = .ok I ∧
    Managed.Turns Managed.onlyGo I J ∧ (J.files.map (·.path)).Nodup ∧
    (∃ f ∈ J.files, f.isImport = false) ∧
    (∀ f ∈ J.files, ∀ g ∈ J.files, f.path ≠ g.path → Path.contains f.path g.path = false) ∧
    ∀ parts, J.byDirectory ≠ .ok parts := by
  obtain ⟨I, J, hI, hturns, hJ⟩ := Managed.exists_turned unsplit_unnamed
  simp only [unsplit, Bool.and_eq_true, decide_eq_true_eq, splittable_iff] at hJ
  obtain ⟨⟨hd, ht, hc⟩, hnone⟩ := hJ
  refine ⟨I, J, hI, hturns, hd, ht, hc, fun parts hparts => ?_⟩
  rw [hparts] at hnone
  cases hnone

end Image
end DescriptorKit
