import DescriptorKit.Proofs.Image.SplitMerge

/-!
What files come to that are made an image: each way to refuse them has its own condition, and files
that are not refused are all kept, in an order that their imports decide as far as they can.
-/
namespace DescriptorKit.Image

variable {files : List ImageFile} {I : Image} {path : String}

/-- The image holds the files, each behind the files it imports that do not lead back to it, and in
the order given where that is such an order already. -/
structure Arranged (files : List ImageFile) (I : Image) : Prop where
  perm : I.files.Perm files
  paths : I.paths = I.files.map (·.path)
  behind : ∀ a b, Imports (underPaths files) a b →
    ¬ Relation.ReflTransGen (Imports (underPaths files)) b a → [b, a].Sublist I.paths
  still : InOrder (underPaths files) → I.files = files

theorem sublist_paths_sort {entries : List (String × ImageFile)} (hd : (keys entries).Nodup)
    {a b : String} (him : Imports entries a b)
    (hback : ¬ Relation.ReflTransGen (Imports entries) b a) :
    [b, a].Sublist (keys (sort entries)) := by
  obtain ⟨f, hf, -, -⟩ := imports_iff.mp him
  obtain ⟨before, after, he⟩ :=
    List.append_of_mem ((sort_perm hd).symm.subset (mem_of_find? hf))
  have hb : b ∈ keys before := (sort_behind hd he him).resolve_right hback
  rw [he, keys, List.map_append, List.map_cons]
  exact (List.singleton_sublist.mpr hb).append (List.singleton_sublist.mpr (by simp))

theorem arranged_sort (hd : (files.map (·.path)).Nodup) :
    Arranged files ⟨sort (underPaths files)⟩ where
  perm := sort_underPaths_perm hd
  paths := by
    rw [Image.files, List.map_map]
    refine List.map_congr_left fun e he => ?_
    have he := (sort_perm (by rwa [keys_underPaths])).subset he
    obtain ⟨f, -, rfl⟩ := List.mem_map.mp he
    rfl
  behind := fun _ _ him hback => sublist_paths_sort (by rwa [keys_underPaths]) him hback
  still := by
    intro ho
    rw [Image.files, sort_of_inOrder (by rwa [keys_underPaths]) ho, map_snd_underPaths]

theorem mem_of_repeated? {seen ps : List String} (h : repeated? seen ps = some path) :
    2 ≤ (seen ++ ps).count path := by
  induction ps generalizing seen with
  | nil => cases h
  | cons p ps ih =>
    rw [repeated?] at h
    split at h
    case isTrue hm =>
      obtain rfl := Option.some.inj h
      have := List.count_pos_iff.mpr hm
      rw [List.count_append, List.count_cons_self]
      omega
    case isFalse =>
      rw [List.perm_middle.count_eq]
      exact ih h

/-- Files make an image unless there are none, two are at one path, or two of one module have
different commits; it is refused for the first of these reasons. -/
theorem ofFiles_arranges (files : List ImageFile) :
    (files = [] → ofFiles files = .error .noFiles) ∧
    (¬ (files.map (·.path)).Nodup → ∃ path, ofFiles files = .error (.duplicatePath path) ∧
      2 ≤ (files.map (·.path)).count path) ∧
    ((files.map (·.path)).Nodup → (∃ m a b, Divided files m a b) →
      ∃ m a b, ofFiles files = .error (.inconsistentCommit m a b) ∧ Divided files m a b) ∧
    (files ≠ [] → (files.map (·.path)).Nodup → (¬ ∃ m a b, Divided files m a b) →
      ∃ I, ofFiles files = .ok I ∧ Arranged files I) := by
  refine ⟨fun h => if_pos h, fun hd => ?_, fun hd hdiv => ?_, fun hn hd hdiv => ?_⟩
  · have hn : files ≠ [] := by
      rintro rfl
      exact hd List.nodup_nil
    cases hr : repeated? [] (files.map (·.path)) with
    | none => exact absurd (repeated?_eq_none_iff.mp hr).1 hd
    | some path => exact ⟨path, by simp [ofFiles, hn, hr], mem_of_repeated? hr⟩
  · have hn : files ≠ [] := by
      rintro rfl
      obtain ⟨m, a, b, -, ⟨f, hf, -⟩, -⟩ := hdiv
      cases hf
    have hr : repeated? [] (files.map (·.path)) = none :=
      repeated?_eq_none_iff.mpr ⟨hd, by simp⟩
    have hp := sort_underPaths_perm hd
    cases hc : conflict? [] ((sort (underPaths files)).map (·.2)) with
    | none =>
      exact absurd ((conflict?_nil_eq_none_iff.mp hc).mono hp.symm.subset) (not_agree_iff.mpr hdiv)
    | some e =>
      obtain ⟨m, a, b, rfl, h⟩ := divided_of_conflict? hc
      exact ⟨m, a, b, by simp [ofFiles, hn, hr, hc], h.perm hp⟩
  · have ha : Agree files := by
      by_contra h
      exact hdiv (not_agree_iff.mp h)
    exact ⟨_, ofFiles_eq_ok_iff.mpr ⟨hn, hd, ha, rfl⟩, arranged_sort hd⟩

/-- The bytes of two files that import each other, and of a third that one of them imports. -/
def loop : Bytes :=
  Storage.encodeFiles [
    storedFile { name := "a.proto", dependencies := ["b.proto", "c.proto"] } false,
    storedFile { name := "b.proto", dependencies := ["a.proto"] } false,
    storedFile { name := "c.proto" } false]

/-- Whether files are one of each path without a module, of which one imports another one that
imports nothing, as in `loop`. -/
def looped (files : List ImageFile) : Bool :=
  decide (files ≠ []) && decide ((files.map (·.path)).Nodup) &&
    decide (∀ f ∈ files, f.module = none) &&
      decide (Imports (underPaths files) "a.proto" "c.proto") &&
    decide (present (underPaths files) "c.proto" = [])

/-- Read in the opposite order, so that the files do not stand as they are to. -/
theorem looped_loop : (Image.decode loop { reparse := false }).toOption.map
    (fun I => looped I.files.reverse) = some true := by
  decide +kernel

theorem ofFiles_arranges_loop : ∃ I, Image.decode loop { reparse := false } = .ok I ∧
    ∃ J, ofFiles I.files.reverse = .ok J ∧ ["c.proto", "a.proto"].Sublist J.paths := by
  obtain ⟨I, hI, -, h⟩ := exists_valid_decoded looped_loop
  simp only [looped, Bool.and_eq_true, decide_eq_true_eq] at h
  obtain ⟨⟨⟨⟨hn, hd⟩, hmodule⟩, himports⟩, hnone⟩ := h
  have hdiv : ¬ ∃ m a b, Divided I.files.reverse m a b := by
    rintro ⟨m, a, b, -, ⟨f, hf, hm, -⟩, -⟩
    rw [hmodule f hf] at hm
    cases hm
  obtain ⟨J, hJ, h⟩ := (ofFiles_arranges I.files.reverse).2.2.2 hn hd hdiv
  refine ⟨I, hI, J, hJ, h.behind _ _ himports fun hleads => ?_⟩
  obtain he | ⟨d, hcd, -⟩ := hleads.cases_head
  · exact absurd he (by decide)
  · rw [Imports, hnone] at hcd
    cases hcd

end DescriptorKit.Image
