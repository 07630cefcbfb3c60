import DescriptorKit.Proofs.Except
import DescriptorKit.Proofs.Image.SplitMerge

/-!
What narrowing comes to, for paths of any kind. Which of its errors it ends with is told from the
paths and the files alone. Where it ends with none, the files that stay are those reached from what
is asked for, and they stay as they are but for being targets or not.
-/
namespace DescriptorKit.Image

variable {I J : Image} {missing : Missing} {include_ exclude targets : List String} {path : String}

section First

variable {α : Type} {P : α → Prop} {l : List α} {a : α}

/-- The first element with a property. -/
def First (P : α → Prop) (l : List α) (a : α) : Prop :=
  ∃ before after, l = before ++ a :: after ∧ P a ∧ ∀ b ∈ before, ¬ P b

theorem find?_eq_some_iff_first {p : α → Bool} : l.find? p = some a ↔ First (p · = true) l a := by
  rw [List.find?_eq_some_iff_append]
  constructor
  · rintro ⟨ha, before, after, rfl, hb⟩
    exact ⟨before, after, rfl, ha, by simpa using hb⟩
  · rintro ⟨before, after, rfl, ha, hb⟩
    exact ⟨ha, before, after, rfl, by simpa using hb⟩

theorem exists_first (h : ∃ a ∈ l, P a) : ∃ a, First P l a := by
  classical
  obtain ⟨a, ha, hp⟩ := h
  cases hf : l.find? (P ·) with
  | none => exact absurd hp (by simpa using List.find?_eq_none.mp hf a ha)
  | some b => exact ⟨b, by simpa using find?_eq_some_iff_first.mp hf⟩

theorem First.exists (h : First P l a) : ∃ a ∈ l, P a := by
  obtain ⟨before, after, rfl, ha, -⟩ := h
  exact ⟨a, by simp, ha⟩

theorem First.cons_of_not {b : α} (h : First P l a) (hb : ¬ P b) : First P (b :: l) a := by
  obtain ⟨before, after, rfl, ha, hn⟩ := h
  exact ⟨b :: before, after, rfl, ha, by simpa using ⟨hb, hn⟩⟩

end First

section Normal

/-- The first path without a normal form is the one that is reported. -/
theorem normalizeAll_eq_error {fault : Path.Fault} {paths : List String}
    (h : First (fun p => ∀ n, Path.normalize p ≠ .ok n) paths path)
    (hf : Path.normalize path = .error fault) :
    normalizeAll paths = .error (.badPath path fault) := by
  obtain ⟨before, after, rfl, -, hn⟩ := h
  induction before with
  | nil => simp [normalizeAll, hf, Except.mapError, bind, Except.bind]
  | cons b before ih =>
    obtain ⟨hb, hn⟩ := List.forall_mem_cons.mp hn
    obtain ⟨n, hb⟩ : ∃ n, Path.normalize b = .ok n := by simpa using hb
    have ih := ih hn
    rw [normalizeAll] at ih ⊢
    rw [List.cons_append, List.mapM_cons, hb, ih]
    rfl

theorem exists_badPath {paths : List String} {e : Error} (h : normalizeAll paths = .error e) :
    ∃ path fault, e = .badPath path fault := by
  induction paths with
  | nil => cases h
  | cons p paths ih =>
    rw [normalizeAll, List.mapM_cons] at h
    cases hp : Path.normalize p with
    | error fault =>
      rw [hp] at h
      exact ⟨p, fault, (Except.error.inj h).symm⟩
    | ok n =>
      cases hr : normalizeAll paths with
      | error e' =>
        rw [hp, ← normalizeAll, hr] at h
        obtain rfl := Except.error.inj h
        exact ih hr
      | ok ns =>
        rw [hp, ← normalizeAll, hr] at h
        cases h

theorem normalizeAll_append {paths more : List String} : normalizeAll (paths ++ more) =
    (normalizeAll paths).bind fun ns => (normalizeAll more).bind fun ms => .ok (ns ++ ms) :=
  List.mapM_append

theorem exists_of_normalizeAll_append {paths more ns : List String}
    (h : normalizeAll (paths ++ more) = .ok ns) :
    ∃ ps ms, normalizeAll paths = .ok ps ∧ normalizeAll more = .ok ms := by
  rw [normalizeAll_append] at h
  obtain ⟨ps, hp, h⟩ := bind_eq_ok_iff.mp h
  obtain ⟨ms, hm, -⟩ := bind_eq_ok_iff.mp h
  exact ⟨ps, ms, hp, hm⟩

theorem normalizeAll_eq_ok_iff {paths normal : List String} : normalizeAll paths = .ok normal ↔
    List.Forall₂ (fun p n => Path.normalize p = .ok n) paths normal := by
  rw [normalizeAll, mapM_eq_ok_iff]
  simp only [mapError_eq_ok_iff]

end Normal

/-- A path lies at or under one of the given ones. -/
def Under (paths : List String) (path : String) : Prop :=
  ∃ p ∈ paths, Path.contains p path = true

/-- A file that is asked for lies at or under an include path, or is a target where there is none,
and lies at or under no exclude path. -/
def Asked (I : Image) (include_ exclude : List String) (path : String) : Prop :=
  ∃ f ∈ I.files, f.path = path ∧
    (if include_ = [] then f.isImport = false else Under include_ path) ∧ ¬ Under exclude path

/-- The files of `J` are those of `I` that are reached from `targets`, in their order. Just the
files in `targets` are targets, and nothing else about a file is changed. -/
def NarrowsTo (I : Image) (targets : String → Prop) (J : Image) : Prop :=
  J.Valid ∧ ∃ kept, kept.Sublist I.files ∧
    (∀ f ∈ I.files, f ∈ kept ↔
      ∃ t, targets t ∧ Relation.ReflTransGen (Imports I.entries) t f.path) ∧
    List.Forall₂ (fun f g => g = f.withImport g.isImport ∧ (g.isImport = false ↔ targets f.path))
      kept J.files

/-- What narrowing to paths in normal form comes to. -/
structure Narrows (I : Image) (missing : Missing) (include_ exclude : List String)
    (result : Except Error Image) : Prop where
  whole : include_ = [] → exclude = [] → result = .ok I
  overlap : (∃ i ∈ include_, Under exclude i) → ∃ i e, First (Under exclude) include_ i ∧
    First (Path.contains · i = true) exclude e ∧ result = .error (.excludeContainsInclude i e)
  unmatched : (¬ ∃ i ∈ include_, Under exclude i) → missing = .refused → ∀ path,
    First (fun p => ¬ ∃ f ∈ I.files, Path.contains p f.path = true) (include_ ++ exclude) path →
      result = .error (.pathNotFound path)
  asked : (¬ ∃ i ∈ include_, Under exclude i) → include_ ++ exclude ≠ [] →
    (missing = .refused →
      ∀ p ∈ include_ ++ exclude, ∃ f ∈ I.files, Path.contains p f.path = true) →
    ((¬ ∃ path, I.Asked include_ exclude path) → result = .error .noFiles) ∧
      ((∃ path, I.Asked include_ exclude path) →
        ∃ J, result = .ok J ∧ I.NarrowsTo (I.Asked include_ exclude) J)

theorem excluded?_eq_none_iff : excluded? exclude include_ = none ↔
    ¬ ∃ i ∈ include_, Under exclude i := by
  induction include_ with
  | nil => simp [excluded?]
  | cons i rest ih =>
    rw [excluded?]
    cases hf : exclude.find? fun e => Path.contains e i with
    | none =>
      have hi : ¬ Under exclude i := by simpa [Under] using hf
      simp [ih, hi]
    | some e =>
      have hi : Under exclude i :=
        ⟨e, List.mem_of_find?_eq_some hf, List.find?_some (p := fun e => Path.contains e i) hf⟩
      simp [hi]

theorem excluded?_eq_some {i e : String} (h : excluded? exclude include_ = some (i, e)) :
    First (Under exclude) include_ i ∧ First (Path.contains · i = true) exclude e := by
  induction include_ with
  | nil => cases h
  | cons i' rest ih =>
    rw [excluded?] at h
    split at h
    case h_1 e' hf =>
      obtain ⟨rfl, rfl⟩ := Prod.mk.inj (Option.some.inj h)
      have he := find?_eq_some_iff_first.mp hf
      exact ⟨⟨[], rest, rfl, ⟨_, List.mem_of_find?_eq_some hf, he.choose_spec.choose_spec.2.1⟩,
        by simp⟩, he⟩
    case h_2 hf =>
      obtain ⟨hi, he⟩ := ih h
      exact ⟨hi.cons_of_not (by simpa [Under] using hf), he⟩

theorem unmatched?_eq_some_iff {paths : List String} : I.unmatched? paths = some path ↔
    First (fun p => ¬ ∃ f ∈ I.files, Path.contains p f.path = true) paths path := by
  rw [unmatched?, find?_eq_some_iff_first]
  simp

theorem unmatched?_eq_none_iff {paths : List String} : I.unmatched? paths = none ↔
    ∀ p ∈ paths, ∃ f ∈ I.files, Path.contains p f.path = true := by
  simp [unmatched?]

theorem mem_asked_iff : path ∈ I.asked include_ exclude ↔ I.Asked include_ exclude path := by
  rw [asked, Asked]
  by_cases hn : include_ = [] <;>
    simp only [hn, if_true, if_false, List.mem_filter, List.mem_map, Under] <;> grind

/-- Files that stand behind their imports make an image in which they stand as they are. -/
theorem ofFiles_of_sameImports {entries : List (String × ImageFile)} {files : List ImageFile}
    (ho : InOrder entries) (h : SameImports entries (underPaths files))
    (hJ : ofFiles files = .ok J) :
    J.entries = underPaths files := by
  obtain ⟨-, hnodup, -, rfl⟩ := ofFiles_eq_ok_iff.mp hJ
  exact sort_of_inOrder (by rwa [keys_underPaths]) (ho.sameImports h)

/-- The files that are kept stand as they stood. -/
theorem Valid.files_of_keep (hv : I.Valid) (ho : InOrder I.entries)
    (h : I.keep targets = .ok J) :
    J.files = (I.files.filter fun f => f.path ∈ reachable I.importsAt I.paths targets).map
      fun f => f.withImport (!(targets.contains f.path)) := by
  rw [keep] at h
  generalize hkept : I.files.filter (fun f => decide
    (f.path ∈ reachable I.importsAt I.paths targets)) = kept at h ⊢
  have hsub : (underPaths kept).Sublist I.entries := by
    rw [hv.entries_eq, ← hkept]
    exact List.filter_sublist.map _
  have hsame : SameImports (underPaths kept)
      (underPaths (kept.map fun f => f.withImport (!(targets.contains f.path)))) := by
    rw [SameImports, underPaths, underPaths, List.map_map, List.forall₂_map_left_iff,
      List.forall₂_map_right_iff, List.forall₂_same]
    exact fun f _ => ⟨rfl, rfl⟩
  rw [files, ofFiles_of_sameImports (ho.sublist hv.distinct hsub) hsame h, map_snd_underPaths]

theorem Valid.keeps_of_keep (hv : I.Valid) (ho : InOrder I.entries)
    (h : I.keep targets = .ok J) : I.NarrowsTo (· ∈ targets) J := by
  refine ⟨keep_valid hv h, I.files.filter fun f => f.path ∈ reachable I.importsAt I.paths targets,
    List.filter_sublist, fun f hf => ?_, ?_⟩
  · rw [List.mem_filter, decide_eq_true_eq, hv.mem_needed_iff]
    exact and_iff_right hf
  · rw [hv.files_of_keep ho h, List.forall₂_map_right_iff, List.forall₂_same]
    intro f _
    simp [ImageFile.withImport]

/-- Narrowing to paths in normal form, some of them given, that are all told apart and found. -/
theorem Valid.narrowTo_asked (hv : I.Valid) (ho : InOrder I.entries)
    (h : I.narrowTo missing include_ exclude =
      if I.asked include_ exclude = [] then .error .noFiles
      else I.keep (I.asked include_ exclude)) :
    ((¬ ∃ path, I.Asked include_ exclude path) →
        I.narrowTo missing include_ exclude = .error .noFiles) ∧
      ((∃ path, I.Asked include_ exclude path) →
        ∃ J, I.narrowTo missing include_ exclude = .ok J ∧
          I.NarrowsTo (I.Asked include_ exclude) J) := by
  have hasked : (· ∈ I.asked include_ exclude) = I.Asked include_ exclude :=
    funext fun _ => propext mem_asked_iff
  rw [h]
  constructor
  · intro hn
    rw [if_pos]
    exact List.eq_nil_iff_forall_not_mem.mpr fun p hp => hn ⟨p, mem_asked_iff.mp hp⟩
  · rintro ⟨p, hp⟩
    have hn : I.asked include_ exclude ≠ [] := List.ne_nil_of_mem (mem_asked_iff.mpr hp)
    have hs : I.asked include_ exclude ⊆ I.paths := by
      intro p hp
      obtain ⟨f, hf, rfl, -⟩ := mem_asked_iff.mp hp
      exact hv.path_mem hf
    obtain ⟨J, hJ, -⟩ := hv.keep_ok hn hs
    rw [if_neg hn, hJ]
    exact ⟨J, rfl, hasked ▸ hv.keeps_of_keep ho hJ⟩

section Given

variable (hgiven : ¬ (include_ = [] ∧ exclude = []))
include hgiven

theorem narrowTo_excluded {i e : String} (h : excluded? exclude include_ = some (i, e)) :
    I.narrowTo missing include_ exclude = .error (.excludeContainsInclude i e) := by
  rw [narrowTo, if_neg hgiven, h]

theorem narrowTo_unmatched (h : excluded? exclude include_ = none)
    (hu : I.unmatched? (include_ ++ exclude) = some path) :
    I.narrowTo .refused include_ exclude = .error (.pathNotFound path) := by
  rw [narrowTo, if_neg hgiven, h, if_pos rfl, hu]

theorem narrowTo_matched (h : excluded? exclude include_ = none)
    (hm : missing = .refused → I.unmatched? (include_ ++ exclude) = none) :
    I.narrowTo missing include_ exclude =
      if I.asked include_ exclude = [] then .error .noFiles
      else I.keep (I.asked include_ exclude) := by
  have hn : (if missing = .refused then I.unmatched? (include_ ++ exclude) else none) = none := by
    split
    case isTrue hr => exact hm hr
    case isFalse => rfl
  rw [narrowTo, if_neg hgiven, h, hn]

end Given

/-- Every call of narrowing with paths in normal form ends as it is told by `Narrows`. -/
theorem Valid.narrowTo_narrows (hv : I.Valid) (ho : InOrder I.entries) :
    I.Narrows missing include_ exclude (I.narrowTo missing include_ exclude) := by
  by_cases hgiven : include_ = [] ∧ exclude = []
  · have hall : I.narrowTo missing include_ exclude = .ok I := by rw [narrowTo, if_pos hgiven]
    obtain ⟨rfl, rfl⟩ := hgiven
    refine ⟨fun _ _ => hall, by simp, fun _ _ _ h => ?_, fun _ h => absurd rfl h⟩
    obtain ⟨before, after, he, -⟩ := h
    simp at he
  have hwhole : include_ = [] → exclude = [] → I.narrowTo missing include_ exclude = .ok I :=
    fun hi he => absurd ⟨hi, he⟩ hgiven
  cases hx : excluded? exclude include_ with
  | some ie =>
    obtain ⟨i, e⟩ := ie
    obtain ⟨hi, he⟩ := excluded?_eq_some hx
    have hover : ∃ i ∈ include_, Under exclude i := hi.exists
    exact ⟨hwhole, fun _ => ⟨i, e, hi, he, narrowTo_excluded hgiven hx⟩,
      fun hn => absurd hover hn, fun hn => absurd hover hn⟩
  | none =>
    have hover := excluded?_eq_none_iff.mp hx
    refine ⟨hwhole, fun h => absurd h hover, fun _ hr path hf => ?_, fun _ _ hm => ?_⟩
    · exact hr ▸ narrowTo_unmatched hgiven hx (unmatched?_eq_some_iff.mpr hf)
    · exact hv.narrowTo_asked ho
        (narrowTo_matched hgiven hx fun hr => unmatched?_eq_none_iff.mpr (hm hr))

/-- Where paths that match no file are passed over, none is reported. -/
theorem Narrows.ne_pathNotFound {result : Except Error Image}
    (h : I.Narrows .allowed include_ exclude result) : result ≠ .error (.pathNotFound path) := by
  by_cases hempty : include_ ++ exclude = []
  · rw [List.append_eq_nil_iff] at hempty
    rw [h.whole hempty.1 hempty.2]
    simp
  · by_cases hover : ∃ i ∈ include_, Under exclude i
    · obtain ⟨i, e, -, -, he⟩ := h.overlap hover
      simp [he]
    · obtain ⟨hnone, hsome⟩ := h.asked hover hempty (by simp)
      by_cases ha : ∃ path, I.Asked include_ exclude path
      · obtain ⟨J, hJ, -⟩ := hsome ha
        simp [hJ]
      · simp [hnone ha]

theorem narrowTo_allowed_eq
    (h : ∀ path, I.narrowTo .refused include_ exclude ≠ .error (.pathNotFound path)) :
    I.narrowTo .allowed include_ exclude = I.narrowTo .refused include_ exclude := by
  by_cases hgiven : include_ = [] ∧ exclude = []
  · rw [narrowTo, narrowTo, if_pos hgiven, if_pos hgiven]
  cases hx : excluded? exclude include_ with
  | some ie => rw [narrowTo_excluded hgiven hx, narrowTo_excluded hgiven hx]
  | none =>
    have hu : I.unmatched? (include_ ++ exclude) = none := by
      cases hu : I.unmatched? (include_ ++ exclude) with
      | none => rfl
      | some path => exact absurd (narrowTo_unmatched hgiven hx hu) (h path)
    rw [narrowTo_matched hgiven hx (by simp), narrowTo_matched hgiven hx fun _ => hu]

theorem narrow_of_normal {include' exclude' : List String}
    (hi : normalizeAll include_ = .ok include') (he : normalizeAll exclude = .ok exclude') :
    I.narrow missing include_ exclude = I.narrowTo missing include' exclude' := by
  rw [narrow, hi, he]
  rfl

theorem narrow_of_error {e : Error} (h : normalizeAll (include_ ++ exclude) = .error e) :
    I.narrow missing include_ exclude = .error e := by
  rw [normalizeAll_append] at h
  rw [narrow]
  cases hi : normalizeAll include_ with
  | error e' =>
    rw [hi] at h
    obtain rfl := Except.error.inj h
    rfl
  | ok include' =>
    rw [hi] at h
    cases he : normalizeAll exclude with
    | error e' =>
      rw [he] at h
      obtain rfl := Except.error.inj h
      rfl
    | ok exclude' =>
      rw [he] at h
      cases h

/-- Narrowing ends with the first path that has no normal form. Where all have one, it ends as it is
told by `Narrows`. Whether paths that match no file are refused tells only whether such a path is
reported. -/
theorem Valid.narrow_exact (hv : I.Valid) (ho : InOrder I.entries)
    (include_ exclude : List String) :
    (∀ missing path fault,
      First (fun p => ∀ n, Path.normalize p ≠ .ok n) (include_ ++ exclude) path →
        Path.normalize path = .error fault →
          I.narrow missing include_ exclude = .error (.badPath path fault)) ∧
      (∀ missing include' exclude',
        List.Forall₂ (fun p n => Path.normalize p = .ok n) include_ include' →
          List.Forall₂ (fun p n => Path.normalize p = .ok n) exclude exclude' →
            I.Narrows missing include' exclude' (I.narrow missing include_ exclude)) ∧
      (∀ path, I.narrow .allowed include_ exclude ≠ .error (.pathNotFound path)) ∧
      ((∀ path, I.narrow .refused include_ exclude ≠ .error (.pathNotFound path)) →
        I.narrow .allowed include_ exclude = I.narrow .refused include_ exclude) := by
  have hnormal : ∀ missing include' exclude',
      List.Forall₂ (fun p n => Path.normalize p = .ok n) include_ include' →
        List.Forall₂ (fun p n => Path.normalize p = .ok n) exclude exclude' →
          I.narrow missing include_ exclude = I.narrowTo missing include' exclude' :=
    fun _ _ _ hi he =>
      narrow_of_normal (normalizeAll_eq_ok_iff.mpr hi) (normalizeAll_eq_ok_iff.mpr he)
  refine ⟨fun missing path fault hp hf => narrow_of_error (normalizeAll_eq_error hp hf),
    fun missing include' exclude' hi he => ?_, ?_⟩
  · rw [narrow_of_normal (normalizeAll_eq_ok_iff.mpr hi) (normalizeAll_eq_ok_iff.mpr he)]
    exact hv.narrowTo_narrows ho
  cases hall : normalizeAll (include_ ++ exclude) with
  | error e =>
    obtain ⟨p, fault, rfl⟩ := exists_badPath hall
    rw [narrow_of_error hall, narrow_of_error hall]
    simp
  | ok normal =>
    obtain ⟨include', exclude', hi, he⟩ := exists_of_normalizeAll_append hall
    rw [narrow_of_normal hi he, narrow_of_normal hi he]
    exact ⟨fun path => (hv.narrowTo_narrows ho).ne_pathNotFound, narrowTo_allowed_eq⟩

/-- Whether the files stand in order, those of `a` are asked for and those of `b` and `c` are
not. -/
def narrowable (I : Image) : Bool :=
  standsInOrder I.entries && decide ("a/x.proto" ∈ I.asked ["a"] ["b"]) &&
    decide (I.unmatched? ["a", "b"] = none) && decide (I.unmatched? ["c", "a"] = some "c")

theorem narrowable_pair :
    (Image.decode pair { reparse := false }).toOption.map narrowable = some true := by
  decide +kernel

theorem narrow_exact_pair : ∃ I, Image.decode pair { reparse := false } = .ok I ∧ I.Valid ∧
    InOrder I.entries ∧
    (∃ J, I.narrow .refused ["./a"] ["b/"] = .ok J ∧ I.NarrowsTo (I.Asked ["a"] ["b"]) J) ∧
    I.narrow .refused ["c"] ["a"] = .error (.pathNotFound "c") := by
  obtain ⟨I, hI, hv, h⟩ := exists_valid_decoded narrowable_pair
  simp only [narrowable, Bool.and_eq_true, decide_eq_true_eq, standsInOrder_iff] at h
  obtain ⟨⟨⟨⟨-, ho⟩, hasked⟩, hmatched⟩, hunmatched⟩ := h
  refine ⟨I, hI, hv, ho, ?_, ?_⟩
  · have hn := (hv.narrow_exact ho ["./a"] ["b/"]).2.1 .refused ["a"] ["b"]
      (.cons (by decide) .nil) (.cons (by decide) .nil)
    refine (hn.asked ?_ (by simp) fun _ => ?_).2 ⟨"a/x.proto", mem_asked_iff.mp hasked⟩
    · exact excluded?_eq_none_iff.mp (by decide)
    · exact unmatched?_eq_none_iff.mp hmatched
  · have hn := (hv.narrow_exact ho ["c"] ["a"]).2.1 .refused ["c"] ["a"]
      (.cons (by decide) .nil) (.cons (by decide) .nil)
    exact hn.unmatched (excluded?_eq_none_iff.mp (by decide)) rfl "c"
      (unmatched?_eq_some_iff.mp hunmatched)

/-- Whether the files of an image stand in order and some target of it lies outside of `zzz`, but
leaving out what lies there still fails. -/
def refused (I : Image) : Bool :=
  standsInOrder I.entries && decide (I.asked [] ["zzz"] ≠ []) &&
    (I.narrow .allowed [] ["zzz"]).toOption.isNone

theorem refused_unnamed :
    (Managed.turned Managed.onlyGo
      (unnamed { name := "x.proto", dialect := some "proto3" }) {}).map refused = some true := by
  decide +kernel

/-- Two files that a pass left without a name do not make an image, so not even lenient narrowing
to targets that are there succeeds. -/
theorem not_narrow_unnamed : ∃ I J,
    Image.decode (unnamed { name := "x.proto", dialect := some "proto3" }) {} = .ok I ∧
    Managed.Turns Managed.onlyGo I J ∧ InOrder J.entries ∧ (∃ path, J.Asked [] ["zzz"] path) ∧
    ∀ K, J.narrow .allowed [] ["zzz"] ≠ .ok K := by
  obtain ⟨I, J, hI, hturns, hJ⟩ := Managed.exists_turned refused_unnamed
  simp only [refused, Bool.and_eq_true, decide_eq_true_eq, standsInOrder_iff] at hJ
  obtain ⟨⟨⟨-, ho⟩, hasked⟩, hnone⟩ := hJ
  obtain ⟨path, hpath⟩ := List.exists_mem_of_ne_nil _ hasked
  refine ⟨I, J, hI, hturns, ho, ⟨path, mem_asked_iff.mp hpath⟩, fun K hK => ?_⟩
  rw [hK] at hnone
  cases hnone

end DescriptorKit.Image
