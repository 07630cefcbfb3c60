import Mathlib.Data.List.Sort
import Mathlib.Data.String.Basic
import DescriptorKit.Proofs.Build.Linked
import DescriptorKit.Proofs.Descriptor.Drafted
import DescriptorKit.Proofs.Image.Formed

/-!
The labels of a built image. Its files are those that were linked, and what was recorded of each
path is what the bucket says of the file there; so targets, imports and bundled files are told apart
rightly. Of the compiler no more is used than which files it opened, and under which paths.
-/
namespace DescriptorKit.Build
open Supply Pool

section Targets

/-- Of a list in order, each member once. -/
theorem eraseDups_ascending {l : List String} (h : l.Pairwise (· ≤ ·)) :
    l.eraseDups.Pairwise (· < ·) := by
  induction hn : l.length using Nat.strong_induction_on generalizing l with
  | _ n ih =>
    cases l with
    | nil => simp
    | cons a l =>
      obtain ⟨ha, hl⟩ := List.pairwise_cons.mp h
      rw [List.eraseDups_cons, List.pairwise_cons]
      refine ⟨fun b hb => ?_, ih _ ?_ (hl.filter _) rfl⟩
      · obtain ⟨hb, hne⟩ := List.mem_filter.mp (List.mem_eraseDups.mp hb)
        exact lt_of_le_of_ne (ha b hb) (Ne.symm (by simpa using hne))
      · rw [← hn, List.length_cons]
        exact Nat.lt_succ_of_le (List.length_filter_le _ _)

theorem sorted_ascending (l : List String) :
    (l.mergeSort fun a b => !decide (b < a)).eraseDups.Pairwise (· < ·) := by
  have hle (a b : String) : (!decide (b < a)) = true ↔ a ≤ b := by
    rw [Bool.not_eq_true', decide_eq_false_iff_not, not_lt]
  have hsorted : (l.mergeSort fun a b => !decide (b < a)).Pairwise fun a b => !decide (b < a) :=
    List.pairwise_mergeSort
      (fun a b c hab hbc => (hle a c).mpr (((hle a b).mp hab).trans ((hle b c).mp hbc)))
      (fun a b => by simpa only [Bool.or_eq_true, hle] using le_total a b) l
  exact eraseDups_ascending (hsorted.imp fun h => (hle _ _).mp h)

/-- The targets are the normal forms of the paths that were given, in order and each once. -/
theorem mem_normalTargets {given normal : List String} (h : normalTargets given = .ok normal) :
    normal.Pairwise (· < ·) ∧ ∀ p, p ∈ normal ↔ ∃ t ∈ given, Path.normalize t = .ok p := by
  obtain ⟨each, heach, h⟩ := bind_eq_ok_iff.mp h
  obtain rfl := Except.ok.inj h
  have hnormal := (mapM_eq_ok_iff.mp heach).imp fun _ _ => mapError_eq_ok_iff.mp
  refine ⟨sorted_ascending each, fun p => ?_⟩
  rw [List.mem_eraseDups, List.mem_mergeSort]
  refine ⟨exists_of_forall₂ hnormal, fun ⟨t, ht, hp⟩ => ?_⟩
  obtain ⟨q, hq, htq⟩ := exists_of_forall₂ hnormal.flip ht
  obtain rfl := Except.ok.inj (htq.symm.trans hp)
  exact hq

theorem exists_normalTargets {given : List String}
    (h : ∀ t ∈ given, ∃ p, Path.normalize t = .ok p) :
    ∃ normal, normalTargets given = .ok normal := by
  obtain ⟨each, heach⟩ := exists_forall₂ h
  refine ⟨_, bind_eq_ok_iff.mpr ⟨each, mapM_eq_ok_iff.mpr ?_, rfl⟩⟩
  exact heach.imp fun _ _ hp => mapError_eq_ok_iff.mpr hp

/-- Paths with the same normal forms are the same targets. -/
theorem normalTargets_congr {given others : List String}
    (hall : ∀ t ∈ given ++ others, ∃ p, Path.normalize t = .ok p)
    (h : ∀ p, (∃ t ∈ given, Path.normalize t = .ok p) ↔ ∃ t ∈ others, Path.normalize t = .ok p) :
    normalTargets others = normalTargets given := by
  obtain ⟨hgiven, hothers⟩ := List.forall_mem_append.mp hall
  obtain ⟨normal, hnormal⟩ := exists_normalTargets hgiven
  obtain ⟨normal', hnormal'⟩ := exists_normalTargets hothers
  obtain ⟨hsorted, hmem⟩ := mem_normalTargets hnormal
  obtain ⟨hsorted', hmem'⟩ := mem_normalTargets hnormal'
  have hsame : normal' = normal := hsorted'.eq_of_mem_iff hsorted fun p => by rw [hmem, hmem', h]
  rw [hnormal, hnormal', hsame]

end Targets

section Reading

variable {B : Bucket} {given others : List String}

/-- What is read and linked depends on the bucket and not on the paths that are to be built. -/
theorem readTargets_building (B : Bucket) (given others targets : List String) :
    readTargets (B.building given) targets = readTargets (B.building others) targets := by
  induction targets with
  | nil => rfl
  | cons path rest ih =>
    rw [readTargets, readTargets, ih]
    rfl

theorem link_building (B : Bucket) (given others : List String) (fuel : Nat) :
    Linker.link (B.building given) fuel = Linker.link (B.building others) fuel := by
  induction fuel with
  | zero => rfl
  | succ fuel ih =>
    funext stack path
    rw [Linker.link, Linker.link, ih]
    rfl

theorem linkTargets_building (B : Bucket) (given others targets rest : List String) (l : Linking)
    (annotations : List Annotation) :
    linkTargets (B.building given) targets rest l annotations =
      linkTargets (B.building others) targets rest l annotations := by
  induction rest generalizing l annotations with
  | nil => rfl
  | cons path rest ih =>
    have hlink : Linker.linkTarget (B.building given) path =
      Linker.linkTarget (B.building others) path :=
      congrFun (congrFun (link_building B given others _) _) _
    simp only [linkTargets, hlink, ih]

theorem build_congr (options : BuildOptions) (h : normalTargets given = normalTargets others) :
    Image.build (B.building given) options = Image.build (B.building others) options := by
  simp only [Image.build, readTargets_building B given others, linkTargets_building B given others]
  change normalTargets given >>= _ = normalTargets others >>= _
  rw [h]

end Reading

section Compiling

variable {R : SourceReader} {targets : List String} {supply : Supply} {files : List Linked}

/-- What is asked of a compiler: it takes its files from the supply, each under the path that it was
looked up as; it opens every target, and what its files import; and it opens nothing else. -/
structure Compiled (R : SourceReader) (targets : List String) (supply : Supply)
    (files : List Linked) : Prop where
  reached : Reached R supply
  supplied : ∀ k ∈ files, Supplied R supply.lookups k.file.name k.unit
  heads : ∀ k ∈ files, SameHead k.unit.file k.file
  opened : ∀ t ∈ targets, ∃ k ∈ files, Path.normalize t = .ok k.file.name
  closed : ∀ k ∈ files, ∀ d ∈ k.file.dependencies, ∃ k' ∈ files, k'.file.name = d
  needed : ∀ k ∈ files, ∃ t ∈ targets, ∃ normal, Path.normalize t = .ok normal ∧
    Relation.ReflTransGen (Imported files) normal k.file.name

/-- Linking the targets one after the other does so. -/
theorem Stages.compiled {options : BuildOptions} {I : Image} {l : Linking} (hR : Steady R)
    (h : Stages R options targets supply l I) : Compiled R targets l.supply l.files := by
  have hgoes := h.goes hR
  exact ⟨hgoes.sound.reached, hgoes.sound.supplied, hgoes.sound.heads, hgoes.linked,
    hgoes.sound.closed, fun k hk => (hgoes.added k hk).resolve_left (by simp)⟩

end Compiling

section Assembling

variable {origins : Origins} {targets : List String} {options : BuildOptions} {linked : List Linked}
  {I : Image}

/-- A file of an image is labelled with what was recorded of the path of a linked file. -/
structure Labels (origins : Origins) (targets : List String) (k : Linked) (f : ImageFile) :
    Prop where
  path : f.path = k.file.name
  dependencies : f.dependencies = k.file.dependencies
  externalPath : f.externalPath = origins.displayPath f.path
  localPath : f.localPath = origins.noted .localPath f.path
  module : f.module = origins.noted .module f.path
  commit : f.commit = origins.noted .commit f.path
  isImport : f.isImport = !targets.contains f.path
  syntaxUnspecified : f.syntaxUnspecified = origins.undeclared.contains f.path

/-- The files of an image are the linked ones with their labels. -/
theorem assemble_labels (h : assemble origins targets options linked = .ok I) :
    ∃ files, List.Forall₂ (Labels origins targets) linked files ∧ ∀ f, f ∈ I.files ↔ f ∈ files := by
  obtain ⟨ds, hds, h⟩ := bind_eq_ok_iff.mp h
  obtain ⟨es, hes, h⟩ := bind_eq_ok_iff.mp h
  obtain ⟨files, hfiles, h⟩ := bind_eq_ok_iff.mp h
  refine ⟨files, ?_, fun f => Image.mem_files_of_ofFiles h⟩
  have hdecoded : List.Forall₂ (fun (k : Linked) (typed : Message) =>
      typed.textAt 1 = k.file.name ∧
      typed.textsAt 3 = k.file.dependencies) linked (ds.map (·.typed)) := by
    rw [List.forall₂_map_right_iff]
    exact (mapM_eq_ok_iff.mp hds).imp fun k d hd =>
      Descriptor.decode_toMessage (mapError_eq_ok_iff.mp hd)
  rw [← Reparse.apply_typed hes, List.forall₂_map_right_iff] at hdecoded
  have hlen : (if options.computeUnused then Unused.indexes es else es.map fun _ => []).length
      = es.length := by
    split <;> simp [Unused.indexes]
  generalize (if options.computeUnused then Unused.indexes es else es.map fun _ => []) = unused
    at hfiles hlen
  rw [← List.map_fst_zip hlen.ge, List.forall₂_map_right_iff] at hdecoded
  have hparts := (mapM_eq_ok_iff.mp hfiles).imp fun _ _ hf =>
    ((ImageFile.ofParts_eq_ok_iff.mp hf).2.2.2).symm
  have hmap := map_eq_of_forall₂ (g := id) hparts
  rw [List.map_id] at hmap
  rw [← hmap, List.forall₂_map_right_iff]
  exact hdecoded.imp fun k e ⟨hname, hdeps⟩ => ⟨hname, hdeps, rfl, rfl, rfl, rfl, rfl, rfl⟩

end Assembling

section Built
open Image DescriptorKit.Language

variable {B : Bucket} {given targets : List String} {supply : Supply} {linked : List Linked}
  {options : BuildOptions} {I : Image} {origins : Origins} {k : Linked} {f : ImageFile}
  {g : SourceFile}

/-- A file of an image is a file of the bucket. -/
structure OfBucket (g : SourceFile) (f : ImageFile) : Prop where
  parsed : ∃ unit, SourceUnit.parse f.path (Text.lossy g.content) = .ok unit ∧
    f.dependencies = unit.file.dependencies
  externalPath : f.externalPath = g.externalPath
  localPath : f.localPath = g.localPath
  module : f.module = g.module
  commit : f.commit = g.commit
  syntaxUnspecified : f.syntaxUnspecified = true ↔
    Source.declaresDialect (Text.lossy g.content) = false

/-- A file of an image is a bundled file. -/
structure OfBundle (f : ImageFile) : Prop where
  isWellKnown : f.isWellKnown = true
  held : ∃ file, Bundled.file? f.path = some file ∧ f.dependencies = file.dependencies
  externalPath : f.externalPath = f.path
  localPath : f.localPath = none
  module : f.module = none
  commit : f.commit = none
  syntaxUnspecified : f.syntaxUnspecified = false

/-- The image of a bucket for the paths that were given is labelled rightly. -/
structure Labelled (B : Bucket) (given : List String) (I : Image) : Prop where
  /-- What is not merely imported are the targets. -/
  targets : ∀ path, (∃ f ∈ I.files, f.path = path ∧ f.isImport = false) ↔
    ∃ t ∈ given, Path.normalize t = .ok path
  distinct : (I.files.map (·.path)).Nodup
  reached : ∀ f ∈ I.files, ∃ t ∈ I.files, t.isImport = false ∧
    Relation.ReflTransGen (Imports I.entries) t.path f.path
  closed : ∀ f ∈ I.files, ∀ d ∈ f.dependencies, ∃ g ∈ I.files, g.path = d
  found : ∀ f ∈ I.files, ∀ g, B.file? f.path = some g → OfBucket g f
  bundled : ∀ f ∈ I.files, B.file? f.path = none → OfBundle f

theorem isWellKnown_of_bundled {path : String} {file : FileDecl}
    (h : Bundled.file? path = some file) :
    WellKnown.isWellKnown path = true := by
  have hall : ∀ file ∈ Bundled.files, WellKnown.isWellKnown file.name = true := by decide +kernel
  have hname : file.name = path := by simpa using List.find?_some h
  exact hname ▸ hall file (List.mem_of_find?_eq_some h)

/-- What was recorded of the path of a file is what a file of the build tells, so its labels are. -/
theorem Labels.told (h : Labels origins targets k f)
    (hg : ∀ part, origins.noted part f.path = g.told part) :
    f.externalPath = g.externalPath ∧ f.localPath = g.localPath ∧ f.module = g.module ∧
      f.commit = g.commit := by
  refine ⟨?_, h.localPath.trans (hg .localPath), h.module.trans (hg .module),
    h.commit.trans (hg .commit)⟩
  have hshown : origins.externalPaths.lookup f.path = some g.externalPath := hg .externalPath
  rw [h.externalPath, Origins.displayPath, hshown]
  rfl

/-- An image of what a compiler made of the files of a bucket. -/
structure Assembled (B : Bucket) (given : List String) (options : BuildOptions)
    (targets : List String) (supply : Supply) (files : List Linked) (I : Image) : Prop where
  normal : normalTargets given = .ok targets
  compiled : Compiled (B.building given) targets supply files
  checked : supply.failure = none
  assembled : assemble supply.origins targets options files = .ok I

namespace Assembled

variable (hs : Assembled B given options targets supply linked I)
include hs

theorem mem_targets_iff (path : String) :
    path ∈ targets ↔ ∃ t ∈ given, Path.normalize t = .ok path :=
  (mem_normalTargets hs.normal).2 path

theorem exists_linked (hf : f ∈ I.files) :
    ∃ k ∈ linked, Labels supply.origins targets k f := by
  obtain ⟨files, hlabels, hfiles⟩ := assemble_labels hs.assembled
  exact exists_of_forall₂ hlabels ((hfiles f).mp hf)

theorem exists_file (hk : k ∈ linked) :
    ∃ f ∈ I.files, Labels supply.origins targets k f := by
  obtain ⟨files, hlabels, hfiles⟩ := assemble_labels hs.assembled
  obtain ⟨f, hf, hlabel⟩ := exists_of_forall₂ hlabels.flip hk
  exact ⟨f, (hfiles f).mpr hf, hlabel⟩

theorem valid : I.Valid := (assemble_made hs.assembled).valid

/-- A target is linked under its normal form, which it is. -/
theorem exists_target {path : String} (h : path ∈ targets) : ∃ k ∈ linked, k.file.name = path := by
  obtain ⟨k, hk, hn⟩ := hs.compiled.opened path h
  obtain ⟨t, -, ht⟩ := (hs.mem_targets_iff path).mp h
  exact ⟨k, hk, Except.ok.inj (hn.symm.trans (Path.normalize_normal ht))⟩

theorem targets_iff (path : String) :
    (∃ f ∈ I.files, f.path = path ∧ f.isImport = false) ↔
      ∃ t ∈ given, Path.normalize t = .ok path := by
  rw [← hs.mem_targets_iff]
  constructor
  · rintro ⟨f, hf, rfl, himport⟩
    obtain ⟨k, -, hlabel⟩ := hs.exists_linked hf
    simpa [hlabel.isImport] using himport
  · intro h
    obtain ⟨k, hk, rfl⟩ := hs.exists_target h
    obtain ⟨f, hf, hlabel⟩ := hs.exists_file hk
    exact ⟨f, hf, hlabel.path, by simpa [hlabel.isImport, hlabel.path] using h⟩

theorem closed (hf : f ∈ I.files) {d : String} (hd : d ∈ f.dependencies) :
    ∃ g ∈ I.files, g.path = d := by
  obtain ⟨k, hk, hlabel⟩ := hs.exists_linked hf
  rw [hlabel.dependencies] at hd
  obtain ⟨k', hk', rfl⟩ := hs.compiled.closed k hk d hd
  obtain ⟨g, hg, hlabel'⟩ := hs.exists_file hk'
  exact ⟨g, hg, hlabel'.path⟩

/-- What a linked file imports, its file in the image does. -/
theorem imports {path d : String} (h : Imported linked path d) : Imports I.entries path d := by
  obtain ⟨k, hk, rfl, hd⟩ := h
  obtain ⟨f, hf, hlabel⟩ := hs.exists_file hk
  rw [← hlabel.dependencies] at hd
  obtain ⟨g, hg, rfl⟩ := hs.closed hf hd
  have hfind := (find?_eq_some_iff hs.valid.distinct).mpr (hs.valid.mem_entries hf)
  rw [← hlabel.path]
  exact imports_iff.mpr ⟨f, hfind, hd, hs.valid.path_mem hg⟩

theorem reached (hf : f ∈ I.files) : ∃ t ∈ I.files, t.isImport = false ∧
    Relation.ReflTransGen (Imports I.entries) t.path f.path := by
  obtain ⟨k, hk, hlabel⟩ := hs.exists_linked hf
  obtain ⟨root, hroot, normal, hn, hr⟩ := hs.compiled.needed k hk
  obtain ⟨t, ht, hnt⟩ := (hs.mem_targets_iff root).mp hroot
  obtain rfl : root = normal := Except.ok.inj ((Path.normalize_normal hnt).symm.trans hn)
  obtain ⟨e, he, rfl, himport⟩ := (hs.targets_iff root).mpr ⟨t, ht, hnt⟩
  rw [hlabel.path]
  exact ⟨e, he, himport, Relation.ReflTransGen.mono (fun _ _ => hs.imports) _ _ hr⟩

/-- A file of the image is what was supplied for its path. -/
theorem exists_supplied (hf : f ∈ I.files) : ∃ unit,
    Supplied (B.building given) supply.lookups f.path unit ∧
      f.dependencies = unit.file.dependencies := by
  obtain ⟨k, hk, hlabel⟩ := hs.exists_linked hf
  exact ⟨k.unit, hlabel.path ▸ hs.compiled.supplied k hk,
    hlabel.dependencies.trans (hs.compiled.heads k hk).dependencies⟩

/-- A file has the labels that were told where its path was looked up. -/
theorem told (hf : f ∈ I.files) (hg : Served (B.building given) supply.lookups f.path g) :
    f.externalPath = g.externalPath ∧ f.localPath = g.localPath ∧ f.module = g.module ∧
      f.commit = g.commit := by
  obtain ⟨k, -, hlabel⟩ := hs.exists_linked hf
  exact hlabel.told (Bucket.noted_eq hs.compiled.reached.traced hg)

theorem syntaxUnspecified_iff (hf : f ∈ I.files) (hheard : f.path ∈ supply.lookups) :
    f.syntaxUnspecified = true ↔
      ∃ g, B.file? f.path = some g ∧ Source.declaresDialect (Text.lossy g.content) = false := by
  obtain ⟨k, -, hlabel⟩ := hs.exists_linked hf
  rw [hlabel.syntaxUnspecified, List.contains_iff_mem,
    hs.compiled.reached.traced.undeclared hs.checked]
  simp [Bucket.answered_iff, hheard]

theorem found (hf : f ∈ I.files) (hg : B.file? f.path = some g) : OfBucket g f := by
  obtain ⟨unit, hunit, hdeps⟩ := hs.exists_supplied hf
  cases hunit with
  | found answered parsed =>
    obtain ⟨hheard, hfile⟩ := Bucket.answered_iff.mp answered
    rw [hg] at hfile
    obtain rfl := Option.some.inj (Except.ok.inj hfile)
    obtain ⟨hexternal, hlocal, hmodule, hcommit⟩ := hs.told hf (.found answered)
    refine ⟨⟨unit, parsed, hdeps⟩, hexternal, hlocal, hmodule, hcommit, ?_⟩
    rw [hs.syntaxUnspecified_iff hf hheard, hg]
    simp
  | bundled answered =>
    obtain ⟨-, hfile⟩ := Bucket.answered_iff.mp answered
    rw [hg] at hfile
    cases hfile

theorem bundled (hf : f ∈ I.files) (hnone : B.file? f.path = none) : OfBundle f := by
  obtain ⟨unit, hunit, hdeps⟩ := hs.exists_supplied hf
  cases hunit with
  | found answered =>
    obtain ⟨-, hfile⟩ := Bucket.answered_iff.mp answered
    rw [hnone] at hfile
    cases hfile
  | bundled answered held =>
    obtain ⟨hheard, -⟩ := Bucket.answered_iff.mp answered
    obtain ⟨hexternal, hlocal, hmodule, hcommit⟩ := hs.told hf (.bundled answered (by simp [held]))
    refine ⟨isWellKnown_of_bundled held, ⟨_, held, hdeps⟩, hexternal, hlocal, hmodule, hcommit, ?_⟩
    rw [← Bool.not_eq_true, hs.syntaxUnspecified_iff hf hheard, hnone]
    simp

/-- Whatever made them, the files are labelled rightly. -/
theorem labelled : Labelled B given I :=
  ⟨hs.targets_iff, hs.valid.paths_eq ▸ hs.valid.distinct, fun _ hf => hs.reached hf,
    fun _ hf _ hd => hs.closed hf hd, fun _ hf _ hg => hs.found hf hg,
    fun _ hf hnone => hs.bundled hf hnone⟩

end Assembled

/-- A build of a bucket labels its image rightly, and depends on the given paths by their normal
forms alone. -/
theorem build_labelled (B : Bucket) (given : List String) (options : BuildOptions) :
    (∀ I, Image.build (B.building given) options = .ok I → Labelled B given I) ∧
    ∀ others, (∀ t ∈ given ++ others, ∃ p, Path.normalize t = .ok p) →
      (∀ p, (∃ t ∈ given, Path.normalize t = .ok p) ↔ ∃ t ∈ others, Path.normalize t = .ok p) →
      Image.build (B.building others) options = Image.build (B.building given) options := by
  constructor
  · intro I h
    obtain ⟨targets, supply, l, hs⟩ := exists_stages h
    have hcompiled := hs.compiled (B.building_steady given)
    exact Assembled.labelled ⟨hs.normal, hcompiled, hs.checked, hs.assembled⟩
  · exact fun others hall hsame => build_congr options (normalTargets_congr hall hsame)

/-- A file that imports a file of the bucket and a bundled one. -/
def importer : SourceFile where
  path := "a.proto"
  content := Bytes.ofText "import \"b.proto\"; import \"google/protobuf/empty.proto\";"
  externalPath := "/src/a.proto"

def imported : SourceFile where
  path := "b.proto"
  content := Bytes.ofText "syntax = \"proto3\";"
  externalPath := "b.proto"
  localPath := some "/cache/b.proto"
  module := some ⟨"registry", "acme", "options", by decide, by decide, by decide⟩
  isTarget := false

theorem build_labelled_pair : ∃ I,
    Image.build (Bucket.building ⟨[importer, imported]⟩ ["./a.proto"])
    { sourceInfo := false } = .ok I ∧
    Labelled ⟨[importer, imported]⟩ ["./a.proto"] I ∧
    Image.build (Bucket.building ⟨[importer, imported]⟩ ["a.proto", "./a.proto"])
      { sourceInfo := false } = .ok I := by
  have hok : (Image.build (Bucket.building ⟨[importer, imported]⟩ ["./a.proto"])
      { sourceInfo := false }).toOption.isSome = true := by decide +kernel
  obtain ⟨I, hI⟩ := Option.isSome_iff_exists.mp hok
  have hbuild := ok_of_toOption hI
  have hnormal : Path.normalize "a.proto" = .ok "a.proto" := rfl
  have hdotted : Path.normalize "./a.proto" = .ok "a.proto" := rfl
  obtain ⟨hlabelled, hsame⟩ :=
    build_labelled ⟨[importer, imported]⟩ ["./a.proto"] { sourceInfo := false }
  refine ⟨I, hbuild, hlabelled I hbuild, ?_⟩
  rw [hsame ["a.proto", "./a.proto"] (by simp [hnormal, hdotted]) (by simp [hnormal, hdotted]),
    hbuild]

end Built

end DescriptorKit.Build
