import DescriptorKit.Image.Merge
import DescriptorKit.Proofs.Image.Order

/-!
What holds of every image, and when files make an image. An image of files holds just these files;
merging keeps one file for each path, a target where there is one.
-/
namespace DescriptorKit

/-- What holds of every file: its path is in normal form, a commit comes with a module, and the
imports that are not needed are there, not public, and listed once each. -/
structure ImageFile.Valid (f : ImageFile) : Prop where
  normal : Path.normalize f.path = .ok f.path
  module_of_commit : f.commit.isSome → f.module.isSome
  unused_lt : ∀ i ∈ f.unused, i < f.dependencies.length
  unused_private : ∀ i ∈ f.unused, f.descriptor.isPublic i = false
  unused_ascending : f.unused.Pairwise (· < ·)

namespace Image

variable {files : List ImageFile} {f g : ImageFile} {I : Image} {path : String}
  {merged next : List (String × ImageFile)}

/-- Files of one module have one commit, or none of them has one. -/
def Agree (files : List ImageFile) : Prop :=
  ∀ f ∈ files, ∀ g ∈ files, ∀ m, f.module = some m → g.module = some m → f.commit = g.commit

/-- What holds of every image: files are found under their own paths, which differ. -/
structure Valid (I : Image) : Prop where
  keyed : ∀ e ∈ I.entries, e.1 = e.2.path
  distinct : I.paths.Nodup
  sound : ∀ f ∈ I.files, f.Valid
  agree : Agree I.files

/-- Files with their own paths. -/
abbrev underPaths (files : List ImageFile) : List (String × ImageFile) :=
  files.map fun f => (f.path, f)

@[simp] theorem keys_underPaths (files : List ImageFile) :
    keys (underPaths files) = files.map (·.path) := by
  simp [keys, underPaths, Function.comp_def]

@[simp] theorem map_snd_underPaths (files : List ImageFile) :
    (underPaths files).map (·.2) = files := by
  simp [underPaths, Function.comp_def]

theorem underPaths_map_snd {entries : List (String × ImageFile)}
    (h : ∀ e ∈ entries, e.1 = e.2.path) : underPaths (entries.map (·.2)) = entries := by
  rw [underPaths, List.map_map]
  conv => rhs; rw [← List.map_id entries]
  apply List.map_congr_left
  intro e he
  exact Prod.ext (h e he).symm rfl

theorem Valid.entries_eq (h : I.Valid) : I.entries = underPaths I.files :=
  (underPaths_map_snd h.keyed).symm

theorem Valid.mem_entries (h : I.Valid) (hf : f ∈ I.files) : (f.path, f) ∈ I.entries := by
  rw [h.entries_eq]
  exact List.mem_map_of_mem hf

theorem Valid.paths_eq (h : I.Valid) : I.paths = I.files.map (·.path) := by
  rw [paths, h.entries_eq]
  exact keys_underPaths I.files

theorem Valid.path_mem (h : I.Valid) (hf : f ∈ I.files) : f.path ∈ I.paths := by
  rw [h.paths_eq]
  exact List.mem_map_of_mem hf

theorem Valid.eq_of_path_eq (h : I.Valid) (hf : f ∈ I.files) (hg : g ∈ I.files)
    (hp : f.path = g.path) : f = g :=
  congrArg Prod.snd (eq_of_key_eq h.distinct (h.mem_entries hf) (h.mem_entries hg) hp)

theorem Valid.path_of_file? (h : I.Valid) (hf : I.file? path = some f) :
    f ∈ I.files ∧ f.path = path := by
  have hm := mem_of_find? hf
  exact ⟨List.mem_map_of_mem (f := Prod.snd) hm, (h.keyed _ hm).symm⟩

theorem repeated?_eq_none_iff {seen ps : List String} :
    repeated? seen ps = none ↔ ps.Nodup ∧ ∀ p ∈ ps, p ∉ seen := by
  induction ps generalizing seen with
  | nil => simp [repeated?]
  | cons p ps ih =>
    rw [repeated?]
    split
    case isTrue h => simp [h]
    case isFalse h =>
      rw [ih]
      simp only [List.nodup_cons, List.mem_cons, not_or, forall_eq_or_imp]
      constructor
      · rintro ⟨hd, hs⟩
        exact ⟨⟨fun hm => (hs p hm).1 rfl, hd⟩, h, fun q hq => (hs q hq).2⟩
      · rintro ⟨⟨hp, hd⟩, -, hs⟩
        exact ⟨hd, fun q hq => ⟨fun he => hp (he ▸ hq), hs q hq⟩⟩

theorem Agree.mono {other : List ImageFile} (h : Agree files) (hs : other ⊆ files) :
    Agree other :=
  fun f hf g hg => h f (hs hf) g (hs hg)

theorem agree_cons_iff : Agree (f :: files) ↔ Agree files ∧
    ∀ g ∈ files, ∀ m, f.module = some m → g.module = some m → f.commit = g.commit := by
  constructor
  · intro h
    exact ⟨h.mono (List.subset_cons_self _ _), fun g hg => h f (by simp) g (by simp [hg])⟩
  · rintro ⟨h, hf⟩ a ha b hb m ham hbm
    rcases List.mem_cons.mp ha with rfl | ha' <;> rcases List.mem_cons.mp hb with rfl | hb'
    · rfl
    · exact hf b hb' m ham hbm
    · exact (hf a ha' m hbm ham).symm
    · exact h a ha' b hb' m ham hbm

theorem conflict?_eq_none_iff {seen : List (ModuleName × Option Commit)} :
    conflict? seen files = none ↔ Agree files ∧
      ∀ f ∈ files, ∀ m, f.module = some m →
        ∀ p, seen.find? (·.1 = m) = some p → p.2 = f.commit := by
  induction files generalizing seen with
  | nil => simp [conflict?, Agree]
  | cons f files ih =>
    rw [conflict?, agree_cons_iff]
    simp only [List.mem_cons, forall_eq_or_imp]
    cases hm : f.module with
    | none =>
      rw [ih]
      simp
    | some m =>
      cases hs : seen.find? (·.1 = m) with
      | none =>
        simp only [ih, Option.some.injEq, forall_eq', hs, reduceCtorEq, false_implies,
          implies_true, true_and]
        constructor
        · rintro ⟨ha, hf⟩
          refine ⟨⟨ha, fun g hg hgm => ?_⟩, fun g hg k hk p hp => ?_⟩
          · exact hf g hg m hgm (m, f.commit) (by simp)
          · have hne : m ≠ k := by
              rintro rfl
              simp [hs] at hp
            exact hf g hg k hk p (by simpa [List.find?_cons, hne] using hp)
        · rintro ⟨⟨ha, hf⟩, hg⟩
          refine ⟨ha, fun g hgm k hk p hp => ?_⟩
          by_cases hne : m = k
          · subst hne
            have hp' : (m, f.commit) = p := by simpa using hp
            rw [← hp']
            exact hf g hgm hk
          · exact hg g hgm k hk p (by simpa [List.find?_cons, hne] using hp)
      | some first =>
        simp only [Option.some.injEq, forall_eq', hs]
        by_cases hc : first.2 = f.commit
        · rw [if_pos hc, ih]
          constructor
          · rintro ⟨ha, hf⟩
            exact ⟨⟨ha, fun g hg hgm => hc ▸ hf g hg m hgm first hs⟩, hc, hf⟩
          · rintro ⟨⟨ha, -⟩, -, hf⟩
            exact ⟨ha, hf⟩
        · simp [hc]

theorem conflict?_nil_eq_none_iff : conflict? [] files = none ↔ Agree files := by
  simp [conflict?_eq_none_iff]

/-- Two files of the module have these commits, which differ. -/
def Divided (files : List ImageFile) (m : ModuleName) (a b : Option Commit) : Prop :=
  a ≠ b ∧ (∃ f ∈ files, f.module = some m ∧ f.commit = a) ∧
    ∃ g ∈ files, g.module = some m ∧ g.commit = b

theorem Divided.perm {m : ModuleName} {a b : Option Commit} {other : List ImageFile}
    (h : Divided files m a b) (hp : files.Perm other) : Divided other m a b := by
  obtain ⟨hne, ⟨f, hf, hfm⟩, ⟨g, hg, hgm⟩⟩ := h
  exact ⟨hne, ⟨f, hp.subset hf, hfm⟩, ⟨g, hp.subset hg, hgm⟩⟩

theorem not_agree_iff : ¬ Agree files ↔ ∃ m a b, Divided files m a b := by
  constructor
  · intro h
    simp only [Agree, not_forall] at h
    obtain ⟨f, hf, g, hg, m, hfm, hgm, hne⟩ := h
    exact ⟨m, f.commit, g.commit, hne, ⟨f, hf, hfm, rfl⟩, ⟨g, hg, hgm, rfl⟩⟩
  · rintro ⟨m, a, b, hne, ⟨f, hf, hfm, rfl⟩, ⟨g, hg, hgm, rfl⟩⟩ h
    exact hne (h f hf g hg m hfm hgm)

/-- What is found to conflict is a commit seen already, or one of the files, and one of these. -/
theorem exists_of_conflict? {seen : List (ModuleName × Option Commit)} {e : Error}
    (h : conflict? seen files = some e) : ∃ m a b, e = .inconsistentCommit m a b ∧ a ≠ b ∧
      ((m, a) ∈ seen ∨ ∃ f ∈ files, f.module = some m ∧ f.commit = a) ∧
      ∃ g ∈ files, g.module = some m ∧ g.commit = b := by
  induction files generalizing seen with
  | nil => cases h
  | cons f rest ih =>
    have hup {P : ImageFile → Prop} : (∃ k ∈ rest, P k) → ∃ k ∈ f :: rest, P k :=
      fun ⟨k, hk, h⟩ => ⟨k, List.mem_cons_of_mem _ hk, h⟩
    rw [conflict?] at h
    split at h
    case h_1 =>
      obtain ⟨m, a, b, he, hne, ha, hb⟩ := ih h
      exact ⟨m, a, b, he, hne, ha.imp_right hup, hup hb⟩
    case h_2 m hm =>
      split at h
      case h_1 =>
        obtain ⟨n, a, b, he, hne, ha, hb⟩ := ih h
        refine ⟨n, a, b, he, hne, ?_, hup hb⟩
        rcases ha with ha | ha
        · rcases List.mem_cons.mp ha with ha | ha
          · obtain ⟨rfl, rfl⟩ := Prod.mk.inj ha
            exact Or.inr ⟨f, by simp, hm, rfl⟩
          · exact Or.inl ha
        · exact Or.inr (hup ha)
      case h_2 n first hs =>
        split at h
        case isTrue =>
          obtain ⟨n, a, b, he, hne, ha, hb⟩ := ih h
          exact ⟨n, a, b, he, hne, ha.imp_right hup, hup hb⟩
        case isFalse hne =>
          have hn : n = m := by simpa using List.find?_some hs
          subst hn
          exact ⟨n, first, f.commit, (Option.some.inj h).symm, hne,
            Or.inl (List.mem_of_find?_eq_some hs), f, by simp, hm, rfl⟩

theorem divided_of_conflict? {e : Error} (h : conflict? [] files = some e) :
    ∃ m a b, e = .inconsistentCommit m a b ∧ Divided files m a b := by
  obtain ⟨m, a, b, he, hne, ha, hb⟩ := exists_of_conflict? h
  exact ⟨m, a, b, he, hne, by simpa using ha, hb⟩

theorem sort_underPaths_perm (hd : (files.map (·.path)).Nodup) :
    ((sort (underPaths files)).map (·.2)).Perm files := by
  have := (sort_perm (show (keys (underPaths files)).Nodup by rwa [keys_underPaths])).map (·.2)
  rwa [map_snd_underPaths] at this

/-- Files make an image where there are any, their paths differ, and they agree on the commits of
their modules. -/
theorem ofFiles_eq_ok_iff : ofFiles files = .ok I ↔
    files ≠ [] ∧ (files.map (·.path)).Nodup ∧ Agree files ∧ I = ⟨sort (underPaths files)⟩ := by
  by_cases hn : files = []
  · simp [ofFiles, hn]
  · rw [ofFiles, if_neg hn]
    cases hr : repeated? [] (files.map (·.path)) with
    | some p =>
      have : ¬ (files.map (·.path)).Nodup := by
        intro hd
        rw [repeated?_eq_none_iff.mpr ⟨hd, by simp⟩] at hr
        cases hr
      simp [this]
    | none =>
      have hd := (repeated?_eq_none_iff.mp hr).1
      have hp := sort_underPaths_perm hd
      cases hc : conflict? [] ((sort (underPaths files)).map (·.2)) with
      | some e =>
        have : ¬ Agree files := by
          intro ha
          rw [conflict?_nil_eq_none_iff.mpr (ha.mono hp.subset)] at hc
          cases hc
        simp [hc, this]
      | none =>
        have ha := (conflict?_nil_eq_none_iff.mp hc).mono hp.symm.subset
        simp [hc, hn, hd, ha, eq_comm]

theorem ofFiles_perm (h : ofFiles files = .ok I) : I.entries.Perm (underPaths files) := by
  obtain ⟨-, hd, -, rfl⟩ := ofFiles_eq_ok_iff.mp h
  exact sort_perm (by rwa [keys_underPaths])

/-- The image lists the files that it was made of, in an order of its own. -/
theorem perm_ofFiles (h : ofFiles files = .ok I) : I.files.Perm files := by
  have hperm := (ofFiles_perm h).map (·.2)
  rwa [map_snd_underPaths] at hperm

theorem mem_files_of_ofFiles (h : ofFiles files = .ok I) : f ∈ I.files ↔ f ∈ files :=
  (perm_ofFiles h).mem_iff

/-- Files in the order of the image that they make are its files. -/
theorem files_of_paths (h : ofFiles files = .ok I) (hp : I.paths = files.map (·.path)) :
    I.files = files := by
  have hperm := ofFiles_perm h
  obtain ⟨-, hd, -⟩ := ofFiles_eq_ok_iff.mp h
  have hkeys : keys I.entries = keys (underPaths files) := by
    rw [keys_underPaths]
    exact hp
  have hentries := eq_of_perm_of_keys (by rwa [hkeys, keys_underPaths]) hperm hkeys
  rw [Image.files, hentries, map_snd_underPaths]

theorem ofFiles_valid (h : ofFiles files = .ok I) (hf : ∀ f ∈ files, f.Valid) : I.Valid where
  keyed := by
    intro e he
    obtain ⟨f, -, rfl⟩ := List.mem_map.mp ((ofFiles_perm h).subset he)
    rfl
  distinct := by
    obtain ⟨-, hd, -⟩ := ofFiles_eq_ok_iff.mp h
    have := (ofFiles_perm h).map (·.1)
    exact this.nodup_iff.mpr (by rwa [← keys_underPaths] at hd)
  sound := fun f hm => hf f ((mem_files_of_ofFiles h).mp hm)
  agree := by
    obtain ⟨-, -, ha, -⟩ := ofFiles_eq_ok_iff.mp h
    exact ha.mono fun f hm => (mem_files_of_ofFiles h).mp hm

theorem Valid.withoutImports (h : I.Valid) : I.withoutImports.Valid where
  keyed := fun e he => h.keyed e (List.mem_of_mem_filter he)
  distinct := h.distinct.sublist (List.filter_sublist.map _)
  sound := fun f hf => h.sound f ((List.filter_sublist.map _).subset hf)
  agree := h.agree.mono (List.filter_sublist.map _).subset

/-- What comes of adding a file to those merged so far: it stands last, or it is told apart from the
file with its path, of which both must not be targets. -/
theorem addFile_eq_ok_iff : addFile f merged = .ok next ↔
    (f.path ∉ keys merged ∧ next = merged ++ [(f.path, f)]) ∨
    ∃ before g after, merged = before ++ (f.path, g) :: after ∧ f.path ∉ keys before ∧
      (g.isImport ∨ f.isImport) ∧
      next = before ++ (f.path, if g.isImport && !f.isImport then f else g) :: after := by
  induction merged generalizing next with
  | nil =>
    rw [addFile, Except.ok.injEq]
    constructor
    · rintro rfl
      exact Or.inl ⟨by simp, rfl⟩
    · rintro (⟨-, rfl⟩ | ⟨before, g, after, he, -⟩)
      · rfl
      · simp at he
  | cons e rest ih =>
    obtain ⟨path, g⟩ := e
    rw [addFile]
    by_cases hp : path = f.path
    · subst hp
      rw [if_pos rfl]
      constructor
      · intro h
        refine Or.inr ⟨[], g, rest, rfl, by simp, ?_⟩
        cases hg : g.isImport <;> cases hf : f.isImport <;>
          simp only [hg, hf, if_true, if_false, Bool.false_eq_true, reduceCtorEq,
            Except.ok.injEq] at h ⊢ <;> simp [h]
      · rintro (⟨hn, -⟩ | ⟨before, g', after, he, hn, hi, rfl⟩)
        · exact absurd (by simp) hn
        · cases before with
          | cons a before =>
            obtain ⟨rfl, -⟩ := List.cons_eq_cons.mp he
            exact absurd (by simp) hn
          | nil =>
            obtain ⟨heq, rfl⟩ := List.cons_eq_cons.mp he
            obtain ⟨-, rfl⟩ := Prod.mk.inj heq
            cases hg : g.isImport <;> cases hf : f.isImport <;>
              simp only [hg, hf, if_true, if_false, Bool.false_eq_true, or_self] at hi ⊢ <;> simp
    · rw [if_neg hp]
      have hmap : ((addFile f rest).map ((path, g) :: ·) = .ok next) ↔
          ∃ l, addFile f rest = .ok l ∧ next = (path, g) :: l := by
        cases addFile f rest <;> simp [Except.map, eq_comm]
      rw [hmap]
      constructor
      · rintro ⟨l, hl, rfl⟩
        rcases ih.mp hl with ⟨hn, rfl⟩ | ⟨before, g', after, rfl, hn, hi, rfl⟩
        · exact Or.inl ⟨by simp [keys, Ne.symm hp, hn], rfl⟩
        · exact Or.inr
            ⟨(path, g) :: before, g', after, rfl, by simp [keys, Ne.symm hp, hn], hi, rfl⟩
      · rintro (⟨hn, rfl⟩ | ⟨before, g', after, he, hn, hi, rfl⟩)
        · rw [keys, List.map_cons, List.mem_cons, not_or] at hn
          exact ⟨_, ih.mpr (Or.inl ⟨hn.2, rfl⟩), rfl⟩
        · cases before with
          | nil => simp [hp] at he
          | cons a before =>
            obtain ⟨rfl, rfl⟩ := List.cons_eq_cons.mp he
            rw [keys, List.map_cons, List.mem_cons, not_or] at hn
            exact ⟨_, ih.mpr (Or.inr ⟨before, g', after, rfl, hn.2, hi, rfl⟩), rfl⟩

/-- What files come to that are merged: one for each path, a target where there is one. -/
structure Merged (files : List ImageFile) (merged : List (String × ImageFile)) : Prop where
  keyed : ∀ e ∈ merged, e.1 = e.2.path
  distinct : (keys merged).Nodup
  given : ∀ e ∈ merged, e.2 ∈ files
  covered : ∀ f ∈ files, ∃ g, (f.path, g) ∈ merged ∧ (g.isImport → f.isImport)

theorem Merged.nil : Merged [] [] :=
  ⟨by simp, by simp, by simp, by simp⟩

theorem Merged.add (h : Merged files merged) (ha : addFile f merged = .ok next) :
    Merged (files ++ [f]) next := by
  rcases addFile_eq_ok_iff.mp ha with ⟨hn, rfl⟩ | ⟨before, g, after, rfl, hn, hi, rfl⟩
  · refine ⟨fun e he => ?_, ?_, fun e he => ?_, fun f' hf' => ?_⟩
    · rcases List.mem_append.mp he with he | he
      · exact h.keyed e he
      · simp_all
    · rw [keys, List.map_append, List.nodup_append]
      refine ⟨h.distinct, by simp, ?_⟩
      rintro p hp q hq rfl
      obtain rfl := List.mem_singleton.mp hq
      exact hn hp
    · rcases List.mem_append.mp he with he | he
      · exact List.mem_append_left _ (h.given e he)
      · simp_all
    · rcases List.mem_append.mp hf' with hf' | hf'
      · obtain ⟨g, hg, hi⟩ := h.covered f' hf'
        exact ⟨g, List.mem_append_left _ hg, hi⟩
      · obtain rfl := List.mem_singleton.mp hf'
        exact ⟨f', by simp, id⟩
  · have hg : (f.path, g) ∈ before ++ (f.path, g) :: after := by simp
    have hpath : f.path = g.path := h.keyed _ hg
    refine ⟨fun e he => ?_, ?_, fun e he => ?_, fun f' hf' => ?_⟩
    · simp only [List.mem_append, List.mem_cons] at he
      rcases he with he | rfl | he
      · exact h.keyed e (by simp [he])
      · dsimp only
        split <;> simp [hpath]
      · exact h.keyed e (by simp [he])
    · simpa [keys] using h.distinct
    · simp only [List.mem_append, List.mem_cons] at he
      rcases he with he | rfl | he
      · exact List.mem_append_left _ (h.given e (by simp [he]))
      · dsimp only
        split
        · simp
        · exact List.mem_append_left _ (h.given _ hg)
      · exact List.mem_append_left _ (h.given e (by simp [he]))
    · rcases List.mem_append.mp hf' with hf' | hf'
      · obtain ⟨g', hg', hi'⟩ := h.covered f' hf'
        by_cases hp : f'.path = f.path
        · obtain rfl : g' = g := congrArg Prod.snd (eq_of_key_eq h.distinct hg' hg hp)
          refine ⟨if g'.isImport && !f.isImport then f else g', by simp [hp], fun hm => ?_⟩
          split at hm
          · simp_all
          · exact hi' hm
        · refine ⟨g', ?_, hi'⟩
          simp only [List.mem_append, List.mem_cons, Prod.mk.injEq, hp, false_and,
            false_or] at hg' ⊢
          exact hg'
      · obtain rfl := List.mem_singleton.mp hf'
        refine ⟨if g.isImport && !f'.isImport then f' else g, by simp, fun hm => ?_⟩
        split at hm
        · exact hm
        · simp_all

theorem mergeFiles_merged {fs : List ImageFile} (h : Merged files merged)
    (hm : mergeFiles merged fs = .ok next) : Merged (files ++ fs) next := by
  induction fs generalizing files merged with
  | nil =>
    obtain rfl := Except.ok.inj hm
    simpa using h
  | cons f fs ih =>
    rw [mergeFiles] at hm
    cases ha : addFile f merged with
    | error e =>
      rw [ha] at hm
      cases hm
    | ok merged' =>
      rw [ha] at hm
      simpa using ih (h.add ha) hm

theorem mergeFiles_ok {fs : List ImageFile} (h : Merged files merged)
    (ht : (files ++ fs).Pairwise fun f g => f.path = g.path → f.isImport ∨ g.isImport) :
    ∃ next, mergeFiles merged fs = .ok next := by
  induction fs generalizing files merged with
  | nil => exact ⟨merged, rfl⟩
  | cons f fs ih =>
    have ha : ∃ next, addFile f merged = .ok next := by
      by_cases hk : f.path ∈ keys merged
      · obtain ⟨e, he, hp⟩ := List.mem_map.mp hk
        obtain ⟨before, after, hs, hn⟩ := List.eq_append_cons_of_mem he
        have hd := h.distinct
        rw [hs] at hd
        simp only [keys, List.map_append, List.map_cons, List.nodup_append] at hd
        have hb : f.path ∉ keys before := fun hb => hd.2.2 f.path hb e.1 (by simp) hp.symm
        have hi := (List.pairwise_append.mp ht).2.2 e.2 (h.given e he) f (by simp)
          ((h.keyed e he).symm.trans hp)
        exact ⟨_, addFile_eq_ok_iff.mpr (Or.inr ⟨before, e.2, after,
          by rw [hs, ← hp], hb, hi, rfl⟩)⟩
      · exact ⟨_, addFile_eq_ok_iff.mpr (Or.inl ⟨hk, rfl⟩)⟩
    obtain ⟨merged', hm⟩ := ha
    obtain ⟨next, hn⟩ := ih (h.add hm) (by simpa using ht)
    exact ⟨next, by rw [mergeFiles, hm]; exact hn⟩

end Image
end DescriptorKit
