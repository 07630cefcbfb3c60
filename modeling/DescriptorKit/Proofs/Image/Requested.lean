import DescriptorKit.Proofs.Image.RequestTrip

/-!
What a request makes the targets of its image. Each of its entries stands for the files at or under
its normal form, so an entry that is a directory stands for files that it does not name.
-/
namespace DescriptorKit

/-- A descriptor of the request has the name. -/
def Request.Names (r : Request) (path : String) : Prop :=
  ∃ b ∈ r.descriptors, ∃ d, Descriptor.decode b = .ok d ∧ d.name = path

/-- The path lies at or under the normal form of the entry. -/
def Path.Picks (entry path : String) : Prop :=
  ∃ n, Path.normalize entry = .ok n ∧ Path.contains n path = true

/-- The normal form of an entry is a directory that holds a file of the request. -/
def Request.NamesDirectory (r : Request) : Prop :=
  ∃ entry ∈ r.filesToGenerate, ∃ path, r.Names path ∧ Path.Picks entry path ∧
    Path.normalize entry ≠ .ok path

namespace Image

variable {I J : Image} {r : Request} {names normal include_ : List String} {path : String}

section Narrow

theorem under_iff (h : normalizeAll names = .ok normal) :
    Under normal path ↔ ∃ entry ∈ names, Path.Picks entry path := by
  have hall := normalizeAll_eq_ok_iff.mp h
  constructor
  · rintro ⟨n, hn, hc⟩
    obtain ⟨entry, he, hnorm⟩ := exists_of_forall₂ hall hn
    exact ⟨entry, he, n, hnorm, hc⟩
  · rintro ⟨entry, he, n, hnorm, hc⟩
    obtain ⟨m, hm, hnorm'⟩ := exists_of_forall₂ hall.flip he
    obtain rfl := Except.ok.inj (hnorm.symm.trans hnorm')
    exact ⟨n, hm, hc⟩

theorem exists_not_normal {e : Error} (h : normalizeAll names = .error e) :
    ∃ entry ∈ names, ∀ n, Path.normalize entry ≠ .ok n := by
  by_contra hall
  push Not at hall
  obtain ⟨normal, hn⟩ := exists_forall₂ hall
  rw [normalizeAll_eq_ok_iff.mpr hn] at h
  cases h

theorem narrowTo_missed (hn : include_ ≠ [])
    (hm : ∃ p ∈ include_, ¬ ∃ f ∈ I.files, Path.contains p f.path = true) :
    ∃ path, I.narrowTo .refused include_ [] = .error (.pathNotFound path) := by
  obtain ⟨path, hfirst⟩ := exists_first hm
  refine ⟨path, narrowTo_unmatched (by simp [hn]) ?_ ?_⟩
  · exact excluded?_eq_none_iff.mpr (by simp [Under])
  · rw [List.append_nil]
    exact unmatched?_eq_some_iff.mpr hfirst

/-- Narrowing to paths that all lie at or above files makes these files the targets. -/
theorem Valid.narrowTo_targets (hv : I.Valid) (hn : include_ ≠ [])
    (hm : ∀ p ∈ include_, ∃ f ∈ I.files, Path.contains p f.path = true) :
    ∃ J, I.narrowTo .refused include_ [] = .ok J ∧
      ∀ path, path ∈ J.targets ↔ path ∈ I.paths ∧ Under include_ path := by
  have hasked : ∀ path, path ∈ I.asked include_ [] ↔ path ∈ I.paths ∧ Under include_ path := by
    intro path
    rw [mem_asked_iff, hv.paths_eq, List.mem_map]
    simp only [Asked, hn, if_false, Under, List.not_mem_nil, false_and, exists_false,
      not_false_eq_true, and_true]
    grind
  obtain ⟨p, hp⟩ := List.exists_mem_of_ne_nil _ hn
  obtain ⟨f, hf, hc⟩ := hm p hp
  have hne : I.asked include_ [] ≠ [] :=
    List.ne_nil_of_mem ((hasked f.path).mpr ⟨hv.path_mem hf, p, hp, hc⟩)
  obtain ⟨J, hJ, hmem⟩ := hv.keep_ok hne fun q hq => ((hasked q).mp hq).1
  refine ⟨J, ?_, fun path => ?_⟩
  · rw [narrowTo_matched (by simp [hn]) (excluded?_eq_none_iff.mpr (by simp [Under]))
      fun _ => unmatched?_eq_none_iff.mpr (by simpa using hm), if_neg hne, hJ]
  · rw [mem_targets_iff, ← hasked]
    constructor
    · rintro ⟨g, hg, hi, rfl⟩
      obtain ⟨f, -, -, rfl⟩ := (hmem g).mp hg
      have ht : f.path ∈ I.asked include_ [] := by simpa [ImageFile.withImport] using hi
      exact ht
    · intro ht
      have hp := ((hasked path).mp ht).1
      rw [hv.paths_eq] at hp
      obtain ⟨f, hf, rfl⟩ := List.mem_map.mp hp
      refine ⟨_, (hmem _).mpr ⟨f, hf, ⟨f.path, ht, .refl⟩, rfl⟩, ?_, rfl⟩
      simpa [ImageFile.withImport] using ht

/-- An image of imports that is narrowed to some entries: it is refused where one of them stands for
no file, and otherwise the files that they stand for are the targets. -/
theorem Valid.narrow_picks (hv : I.Valid) (hi : ∀ f ∈ I.files, f.isImport = true)
    (names : List String) :
    (∃ J, I.narrow .refused names [] = .ok J ∧
      (∀ entry ∈ names, ∃ path ∈ I.paths, Path.Picks entry path) ∧
      ∀ path, path ∈ J.targets ↔ path ∈ I.paths ∧ ∃ entry ∈ names, Path.Picks entry path) ∨
    ∃ e, I.narrow .refused names [] = .error e ∧
      ∃ entry ∈ names, ¬ ∃ path ∈ I.paths, Path.Picks entry path := by
  cases hnorm : normalizeAll names with
  | error e =>
    obtain ⟨entry, he, hbad⟩ := exists_not_normal hnorm
    refine Or.inr ⟨e, narrow_of_error (by rwa [List.append_nil]), entry, he, ?_⟩
    rintro ⟨path, -, n, hn, -⟩
    exact hbad n hn
  | ok normal =>
    have hall := normalizeAll_eq_ok_iff.mp hnorm
    rw [narrow_of_normal hnorm rfl]
    by_cases hn : normal = []
    · subst hn
      obtain rfl := List.forall₂_nil_right_iff.mp hall
      refine Or.inl ⟨I, rfl, by simp, fun path => ?_⟩
      rw [mem_targets_iff]
      constructor
      · rintro ⟨f, hf, h, -⟩
        rw [hi f hf] at h
        cases h
      · rintro ⟨-, entry, he, -⟩
        cases he
    have hfile : ∀ {p}, (∃ f ∈ I.files, Path.contains p f.path = true) ↔
        ∃ path ∈ I.paths, Path.contains p path = true := by
      intro p
      simp [hv.paths_eq]
    by_cases hm : ∀ p ∈ normal, ∃ f ∈ I.files, Path.contains p f.path = true
    · obtain ⟨J, hJ, ht⟩ := hv.narrowTo_targets hn hm
      refine Or.inl ⟨J, hJ, fun entry he => ?_, fun path => ?_⟩
      · obtain ⟨n, hmem, hnorm'⟩ := exists_of_forall₂ hall.flip he
        obtain ⟨path, hp, hc⟩ := hfile.mp (hm n hmem)
        exact ⟨path, hp, n, hnorm', hc⟩
      · rw [ht, under_iff hnorm]
    · push Not at hm
      obtain ⟨n, hmem, hmiss⟩ := hm
      obtain ⟨path, he⟩ := @narrowTo_missed I normal hn ⟨n, hmem, by simpa using hmiss⟩
      obtain ⟨entry, hentry, hnorm'⟩ := exists_of_forall₂ hall hmem
      refine Or.inr ⟨_, he, entry, hentry, ?_⟩
      rintro ⟨path, hp, n', hn', hc⟩
      obtain rfl := Except.ok.inj (hnorm'.symm.trans hn')
      obtain ⟨f, hf, hc⟩ := hfile.mpr ⟨path, hp, hc⟩
      exact hmiss f hf hc

end Narrow

/-- The image of all files that a request carries, none of them a target. -/
def carried (r : Request) : Except Error Image := do
  let ds ← r.descriptors.mapM fun b => (Descriptor.decode b).mapError .decode
  let es ← Reparse.apply ds
  let files ← es.mapM fun d => ImageFile.ofParts { descriptor := d, isImport := true }
  ofFiles files

theorem ofRequest_eq (r : Request) :
    ofRequest r = carried r >>= fun I => I.narrow .refused r.filesToGenerate [] := by
  simp [ofRequest, carried]

theorem carried_made (h : carried r = .ok I) : I.Valid ∧ (∀ f ∈ I.files, f.isImport = true) ∧
    ∀ path, path ∈ I.paths ↔ r.Names path := by
  obtain ⟨ds, hds, h⟩ := bind_eq_ok_iff.mp h
  obtain ⟨es, hes, h⟩ := bind_eq_ok_iff.mp h
  obtain ⟨files, hfiles, h⟩ := bind_eq_ok_iff.mp h
  have hdecoded : List.Forall₂ (fun b d => Descriptor.decode b = .ok d) r.descriptors ds :=
    (mapM_eq_ok_iff.mp hds).imp fun _ _ h => mapError_eq_ok_iff.mp h
  have hnames : es.map (·.name) = ds.map (·.name) := by
    have := congrArg (List.map fun m : Message => m.textAt 1) (Reparse.apply_typed hes)
    rwa [List.map_map, List.map_map] at this
  have hpaths : es.map (·.name) = files.map (·.path) :=
    map_eq_of_forall₂ ((mapM_eq_ok_iff.mp hfiles).imp fun d f hf => by
      rw [ImageFile.path, (ImageFile.ofParts_valid hf).2])
  have hv : I.Valid := ofFiles_valid h fun f hf => by
    obtain ⟨d, -, hf⟩ := mem_of_mapM hfiles hf
    exact (ImageFile.ofParts_valid hf).1
  refine ⟨hv, fun f hf => ?_, fun path => ?_⟩
  · obtain ⟨d, -, hf⟩ := mem_of_mapM hfiles ((mem_files_of_ofFiles h).mp hf)
    obtain ⟨-, -, -, rfl⟩ := ImageFile.ofParts_eq_ok_iff.mp hf
    rfl
  · have hmem : path ∈ I.paths ↔ path ∈ ds.map (·.name) := by
      rw [← hnames, hpaths, hv.paths_eq]
      simp only [List.mem_map, mem_files_of_ofFiles h]
    rw [hmem, List.mem_map]
    constructor
    · rintro ⟨d, hd, rfl⟩
      obtain ⟨b, hb, hdec⟩ := exists_of_forall₂ hdecoded hd
      exact ⟨b, hb, d, hdec, rfl⟩
    · rintro ⟨b, hb, d, hdec, rfl⟩
      obtain ⟨d', hd', hdec'⟩ := exists_of_forall₂ hdecoded.flip hb
      obtain rfl := Except.ok.inj (hdec.symm.trans hdec')
      exact ⟨d, hd', rfl⟩

/-- A request whose image is made has entries that all stand for files, which are its targets; one
with an entry that stands for no file is refused, and no other for its entries. Where no entry is a
directory that holds files of the request, the targets are just the files that the entries name. -/
theorem ofRequest_targets (r : Request) :
    (∀ I, carried r = .ok I →
      (∀ entry ∈ r.filesToGenerate, ∃ path, r.Names path ∧ Path.Picks entry path) →
        ∃ J, ofRequest r = .ok J) ∧
    (∀ entry ∈ r.filesToGenerate, (¬ ∃ path, r.Names path ∧ Path.Picks entry path) →
      ∃ e, ofRequest r = .error e) ∧
    (∀ J, ofRequest r = .ok J → ∀ path, path ∈ J.targets ↔
      r.Names path ∧ ∃ entry ∈ r.filesToGenerate, Path.Picks entry path) ∧
    (¬ r.NamesDirectory →
      (∀ entry ∈ r.filesToGenerate, (¬ ∃ path, r.Names path ∧ Path.normalize entry = .ok path) →
        ∃ e, ofRequest r = .error e) ∧
      ∀ J, ofRequest r = .ok J → ∀ path, path ∈ J.targets ↔
        ∃ entry ∈ r.filesToGenerate, Path.normalize entry = .ok path) := by
  have hall : (∃ e, ofRequest r = .error e ∧ ∀ I, carried r = .ok I →
        ∃ entry ∈ r.filesToGenerate, ¬ ∃ path, r.Names path ∧ Path.Picks entry path) ∨
      ∃ J, ofRequest r = .ok J ∧
        (∀ entry ∈ r.filesToGenerate, ∃ path, r.Names path ∧ Path.Picks entry path) ∧
        ∀ path, path ∈ J.targets ↔
          r.Names path ∧ ∃ entry ∈ r.filesToGenerate, Path.Picks entry path := by
    rw [ofRequest_eq]
    cases hI : carried r with
    | error e => exact Or.inl ⟨e, rfl, by simp⟩
    | ok I =>
      obtain ⟨hv, hi, hnames⟩ := carried_made hI
      simp only [← hnames]
      rcases hv.narrow_picks hi r.filesToGenerate with ⟨J, hJ, h⟩ | ⟨e, he, h⟩
      · exact Or.inr ⟨J, hJ, h⟩
      · exact Or.inl ⟨e, he, fun _ _ => h⟩
  rcases hall with ⟨e, he, hmiss⟩ | ⟨J, hJ, hpicked, ht⟩
  · rw [he]
    refine ⟨fun I hI hpicked => ?_, fun _ _ _ => ⟨e, rfl⟩, by simp,
      fun _ => ⟨fun _ _ _ => ⟨e, rfl⟩, by simp⟩⟩
    obtain ⟨entry, hentry, hn⟩ := hmiss I hI
    exact absurd (hpicked entry hentry) hn
  · rw [hJ]
    simp only [Except.ok.injEq, forall_eq']
    refine ⟨fun _ _ _ => ⟨J, rfl⟩, fun entry he hn => absurd (hpicked entry he) hn, ht,
      fun hdir => ?_⟩
    have hnormal : ∀ entry ∈ r.filesToGenerate, ∀ path, r.Names path → Path.Picks entry path →
        Path.normalize entry = .ok path := fun entry he path hname hp => by
      by_contra hne
      exact hdir ⟨entry, he, path, hname, hp, hne⟩
    refine ⟨fun entry he hn => ?_, fun path => ?_⟩
    · obtain ⟨path, hname, hp⟩ := hpicked entry he
      exact absurd ⟨path, hname, hnormal entry he path hname hp⟩ hn
    · rw [ht]
      constructor
      · rintro ⟨hname, entry, he, hp⟩
        exact ⟨entry, he, hnormal entry he path hname hp⟩
      · rintro ⟨entry, he, hp⟩
        obtain ⟨path', hname, hp'⟩ := hpicked entry he
        obtain rfl := Except.ok.inj (hp.symm.trans (hnormal entry he path' hname hp'))
        exact ⟨hname, entry, he, hp'⟩

/-- A request for one of two files, which it names in another form. -/
def oneOfTwo : Request :=
  { filesToGenerate := ["./a.proto"]
    descriptors := [FileDecl.toMessage { name := "b.proto" } |>.encode,
      FileDecl.toMessage { name := "a.proto", dependencies := ["b.proto"] } |>.encode] }

/-- The files that a request carries, and the targets that it makes. -/
def asked? (r : Request) : Option (List (Option String) × List String) :=
  (ofRequest r).toOption.map fun J =>
    (r.descriptors.map fun b => (Descriptor.decode b).toOption.map (·.name), J.targets)

theorem asked?_oneOfTwo :
    asked? oneOfTwo = some ([some "b.proto", some "a.proto"], ["a.proto"]) := by decide +kernel

theorem ofRequest_targets_oneOfTwo : ∃ J, ofRequest oneOfTwo = .ok J ∧ ¬ oneOfTwo.NamesDirectory ∧
    ∀ path, path ∈ J.targets ↔
      ∃ entry ∈ oneOfTwo.filesToGenerate, Path.normalize entry = .ok path := by
  obtain ⟨J, hJ, h⟩ := Option.map_eq_some_iff.mp asked?_oneOfTwo
  have hdir : ¬ oneOfTwo.NamesDirectory := by
    rintro ⟨entry, he, path, ⟨b, hb, d, hd, rfl⟩, ⟨n, hn, hc⟩, hne⟩
    have hname : some d.name ∈ [some "b.proto", some "a.proto"] := by
      rw [← (Prod.mk.inj h).1]
      exact List.mem_map.mpr ⟨b, hb, by rw [hd]; rfl⟩
    obtain rfl := List.mem_singleton.mp he
    have hnormal : Path.normalize "./a.proto" = .ok "a.proto" := by decide
    obtain rfl := Except.ok.inj (hn.symm.trans hnormal)
    simp only [List.mem_cons, Option.some.injEq, List.not_mem_nil, or_false] at hname
    rcases hname with hname | hname
    · rw [hname] at hc
      exact absurd hc (by decide)
    · exact hne (by rw [hname]; exact hn)
  exact ⟨J, ok_of_toOption hJ, hdir,
    ((ofRequest_targets oneOfTwo).2.2.2 hdir).2 J (ok_of_toOption hJ)⟩

/-- A request for a file whose path is the directory of another. -/
def below : Request :=
  { filesToGenerate := ["a.proto"]
    descriptors := [FileDecl.toMessage { name := "a.proto" } |>.encode,
      FileDecl.toMessage { name := "a.proto/b.proto" } |>.encode] }

theorem asked?_below : asked? below =
    some ([some "a.proto", some "a.proto/b.proto"], ["a.proto", "a.proto/b.proto"]) := by
  decide +kernel

/-- A file below one that is asked for becomes a target, though no entry names it. -/
theorem not_targets_below : ∃ J, ofRequest below = .ok J ∧ ¬ ∀ path, path ∈ J.targets ↔
    ∃ entry ∈ below.filesToGenerate, Path.normalize entry = .ok path := by
  obtain ⟨J, hJ, h⟩ := Option.map_eq_some_iff.mp asked?_below
  refine ⟨J, ok_of_toOption hJ, fun hall => ?_⟩
  obtain ⟨entry, he, hn⟩ := (hall "a.proto/b.proto").mp (by rw [(Prod.mk.inj h).2]; simp)
  obtain rfl := List.mem_singleton.mp he
  exact absurd hn (by decide)

end Image
end DescriptorKit
