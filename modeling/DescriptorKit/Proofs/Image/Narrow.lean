import DescriptorKit.Image.Narrow
import DescriptorKit.Proofs.Image.Files

/-!
What narrowing keeps: the files reached from what is asked for, each once, the paths asked for as
targets and all else as imports.
-/
namespace DescriptorKit

section Reach

variable {next : String → List String} {names seen stack start : List String} {name x : String}
  {fuel : Nat}

/-- The number of successors of names that are not yet seen. -/
def owed (next : String → List String) (seen : List String) : List String → Nat
  | [] => 0
  | n :: names => (if n ∈ seen then 0 else (next n).length) + owed next seen names

theorem owed_nil (names : List String) : owed next [] names = (names.flatMap next).length := by
  induction names with
  | nil => rfl
  | cons n names ih => simp [owed, ih]

theorem owed_cons_le : owed next (name :: seen) names ≤ owed next seen names := by
  induction names with
  | nil => simp [owed]
  | cons n names ih =>
    rw [owed, owed]
    by_cases hn : n ∈ seen <;> by_cases he : n = name <;> simp [hn, he] <;> omega

theorem owed_cons_of_mem (hm : name ∈ names) (hn : name ∉ seen) :
    owed next (name :: seen) names + (next name).length ≤ owed next seen names := by
  induction names with
  | nil => simp at hm
  | cons n names ih =>
    have hle : owed next (name :: seen) names ≤ owed next seen names := owed_cons_le
    rw [owed, owed]
    by_cases he : n = name
    · subst he
      simp only [List.mem_cons, true_or, if_true, hn, if_false]
      omega
    · have := ih (by simpa [Ne.symm he] using hm)
      simp only [List.mem_cons, he, false_or]
      omega

theorem reachFrom_sound (h : x ∈ reachFrom next fuel seen stack) :
    x ∈ seen ∨ ∃ s ∈ stack, Relation.ReflTransGen (fun a b => b ∈ next a) s x := by
  induction fuel generalizing seen stack with
  | zero => exact Or.inl h
  | succ fuel ih =>
    cases stack with
    | nil => exact Or.inl h
    | cons name stack =>
      rw [reachFrom] at h
      split at h
      · rcases ih h with hx | ⟨s, hs, hr⟩
        · exact Or.inl hx
        · exact Or.inr ⟨s, List.mem_cons_of_mem _ hs, hr⟩
      · rcases ih h with hx | ⟨s, hs, hr⟩
        · rcases List.mem_cons.mp hx with rfl | hx
          · exact Or.inr ⟨x, by simp, .refl⟩
          · exact Or.inl hx
        · rcases List.mem_append.mp hs with hs | hs
          · exact Or.inr ⟨name, by simp, .head hs hr⟩
          · exact Or.inr ⟨s, List.mem_cons_of_mem _ hs, hr⟩

/-- With steps for all successors that are still owed, a walk sees everything on its stack, and with
every name its successors. -/
theorem reachFrom_closed (hn : ∀ n, n ∉ names → next n = [])
    (hf : stack.length + owed next seen names ≤ fuel)
    (hs : ∀ n ∈ seen, ∀ d ∈ next n, d ∈ seen ∨ d ∈ stack) :
    (∀ n, n ∈ seen ∨ n ∈ stack → n ∈ reachFrom next fuel seen stack) ∧
      ∀ n ∈ reachFrom next fuel seen stack, ∀ d ∈ next n, d ∈ reachFrom next fuel seen stack := by
  induction fuel generalizing seen stack with
  | zero =>
    obtain rfl : stack = [] := List.eq_nil_of_length_eq_zero (by omega)
    rw [reachFrom]
    exact ⟨by simp, fun n h d hd => by simpa using hs n h d hd⟩
  | succ fuel ih =>
    cases stack with
    | nil =>
      rw [reachFrom]
      exact ⟨by simp, fun n h d hd => by simpa using hs n h d hd⟩
    | cons name stack =>
      rw [reachFrom]
      simp only [List.length_cons] at hf
      split
      case isTrue hm =>
        obtain ⟨h₁, h₂⟩ := @ih seen stack (by omega) fun n hn d hd => by
          rcases hs n hn d hd with h | h
          · exact Or.inl h
          · rcases List.mem_cons.mp h with rfl | h
            · exact Or.inl hm
            · exact Or.inr h
        refine ⟨fun n h => h₁ n ?_, h₂⟩
        rcases h with h | h
        · exact Or.inl h
        · rcases List.mem_cons.mp h with rfl | h
          · exact Or.inl hm
          · exact Or.inr h
      case isFalse hm =>
        have hlen : (next name).length + owed next (name :: seen) names ≤ owed next seen names := by
          by_cases hk : name ∈ names
          · have : owed next (name :: seen) names + (next name).length ≤ owed next seen names :=
              owed_cons_of_mem hk hm
            omega
          · rw [hn name hk, List.length_nil, Nat.zero_add]
            exact owed_cons_le
        obtain ⟨h₁, h₂⟩ := @ih (name :: seen) (next name ++ stack)
          (by simp only [List.length_append]; omega) fun n h d hd => by
            rcases List.mem_cons.mp h with rfl | h
            · exact Or.inr (List.mem_append_left _ hd)
            · rcases hs n h d hd with h | h
              · exact Or.inl (List.mem_cons_of_mem _ h)
              · rcases List.mem_cons.mp h with rfl | h
                · exact Or.inl (by simp)
                · exact Or.inr (List.mem_append_right _ h)
        refine ⟨fun n h => h₁ n ?_, h₂⟩
        rw [List.mem_cons, List.mem_append]
        rw [List.mem_cons] at h
        tauto

theorem mem_reachable_iff (hn : ∀ n, n ∉ names → next n = []) :
    x ∈ reachable next names start ↔
      ∃ s ∈ start, Relation.ReflTransGen (fun a b => b ∈ next a) s x := by
  constructor
  · intro h
    rcases reachFrom_sound h with h | h
    · cases h
    · exact h
  · rintro ⟨s, hs, hr⟩
    have hf : start.length + owed next [] names ≤ (start ++ names.flatMap next).length := by
      simp [owed_nil]
    obtain ⟨h₁, h₂⟩ := reachFrom_closed hn hf (by simp)
    induction hr with
    | refl => exact h₁ s (Or.inr hs)
    | tail _ hd ih => exact h₂ _ ih _ hd

end Reach

theorem ImageFile.Valid.withImport {f : ImageFile} (h : f.Valid) (b : Bool) :
    (f.withImport b).Valid :=
  ⟨h.normal, h.module_of_commit, h.unused_lt, h.unused_private, h.unused_ascending⟩

theorem ImageFile.withImport_self {f : ImageFile} {b : Bool} (h : f.isImport = b) :
    f.withImport b = f := by
  subst h
  rfl

namespace Image

variable {I J : Image} {f g : ImageFile} {path : String} {targets : List String}

/-- The file under `path` is one of the targets, or it is imported from them, directly or not. -/
def Reached (I : Image) (targets : List String) (path : String) : Prop :=
  ∃ t ∈ targets, Relation.ReflTransGen (Imports I.entries) t path

theorem Reached.mono {more : List String} (h : I.Reached targets path) (hs : targets ⊆ more) :
    I.Reached more path := by
  obtain ⟨t, ht, hr⟩ := h
  exact ⟨t, hs ht, hr⟩

theorem Valid.importsAt_eq (hv : I.Valid) (path : String) :
    I.importsAt path = present I.entries path := by
  rw [importsAt, file?, present]
  cases find? I.entries path with
  | none => rfl
  | some f =>
    dsimp only
    rw [← List.filterMap_eq_filter]
    apply List.filterMap_congr
    intro d _
    change (I.file? d).map _ = if (I.file? d).isSome then some d else none
    cases hd : I.file? d with
    | none => rfl
    | some g => simp [(hv.path_of_file? hd).2]

theorem Valid.mem_needed_iff (hv : I.Valid) :
    path ∈ reachable I.importsAt I.paths targets ↔ I.Reached targets path := by
  rw [mem_reachable_iff]
  · simp only [hv.importsAt_eq]
    rfl
  · intro n hn
    rw [importsAt, show I.file? n = none from find?_eq_none_iff.mpr hn]

/-- Narrowing to paths that are there works, and keeps what is reached from them. -/
theorem Valid.keep_ok (hv : I.Valid) (hn : targets ≠ []) (hs : targets ⊆ I.paths) :
    ∃ J, I.keep targets = .ok J ∧ ∀ g, g ∈ J.files ↔
      ∃ f ∈ I.files, I.Reached targets f.path ∧
        g = f.withImport (!(targets.contains f.path)) := by
  have hsub : I.files.filter (fun f => f.path ∈ reachable I.importsAt I.paths targets) ⊆ I.files :=
    List.filter_subset_self _
  have hok : ofFiles ((I.files.filter fun f => f.path ∈ reachable I.importsAt I.paths targets).map
      fun f => f.withImport (!(targets.contains f.path))) =
        .ok ⟨sort (underPaths ((I.files.filter fun f =>
          f.path ∈ reachable I.importsAt I.paths targets).map
            fun f => f.withImport (!(targets.contains f.path))))⟩ := by
    refine ofFiles_eq_ok_iff.mpr ⟨?_, ?_, ?_, rfl⟩
    · obtain ⟨t, ht⟩ := List.exists_mem_of_ne_nil _ hn
      have hp := hs ht
      rw [hv.paths_eq] at hp
      obtain ⟨f, hf, rfl⟩ := List.mem_map.mp hp
      apply List.ne_nil_of_mem (a := f.withImport (!(targets.contains f.path)))
      refine List.mem_map_of_mem (f := fun f => f.withImport (!(targets.contains f.path)))
        (List.mem_filter.mpr ⟨hf, ?_⟩)
      simpa using hv.mem_needed_iff.mpr ⟨f.path, ht, .refl⟩
    · have hd := hv.distinct
      rw [hv.paths_eq] at hd
      rw [List.map_map]
      exact hd.sublist (List.filter_sublist.map _)
    · intro a ha b hb m ham hbm
      obtain ⟨f, hf, rfl⟩ := List.mem_map.mp ha
      obtain ⟨g, hg, rfl⟩ := List.mem_map.mp hb
      exact hv.agree f (hsub hf) g (hsub hg) m ham hbm
  refine ⟨_, hok, fun g => ?_⟩
  rw [mem_files_of_ofFiles hok, List.mem_map]
  simp only [List.mem_filter, decide_eq_true_eq, hv.mem_needed_iff]
  constructor
  · rintro ⟨f, ⟨hf, hr⟩, rfl⟩
    exact ⟨f, hf, hr, rfl⟩
  · rintro ⟨f, hf, hr, rfl⟩
    exact ⟨f, ⟨hf, hr⟩, rfl⟩

theorem keep_valid (hv : I.Valid) (h : I.keep targets = .ok J) : J.Valid := by
  refine ofFiles_valid h fun f hf => ?_
  obtain ⟨g, hg, rfl⟩ := List.mem_map.mp hf
  exact (hv.sound g (List.mem_of_mem_filter hg)).withImport _

theorem narrowTo_valid {missing : Missing} {include_ exclude : List String} (hv : I.Valid)
    (h : I.narrowTo missing include_ exclude = .ok J) : J.Valid := by
  rw [narrowTo] at h
  split at h
  · obtain rfl := Except.ok.inj h
    exact hv
  · split at h
    · cases h
    · split at h
      · cases h
      · dsimp only at h
        split at h
        · cases h
        · exact keep_valid hv h

theorem narrow_valid {missing : Missing} {include_ exclude : List String} (hv : I.Valid)
    (h : I.narrow missing include_ exclude = .ok J) : J.Valid := by
  simp only [narrow, bind, Except.bind] at h
  split at h
  · cases h
  · split at h
    · cases h
    · exact narrowTo_valid hv h

theorem normalizeAll_of_normal {paths : List String}
    (h : ∀ p ∈ paths, Path.normalize p = .ok p) : normalizeAll paths = .ok paths := by
  induction paths with
  | nil => rfl
  | cons p paths ih =>
    have hp := ih fun q hq => h q (List.mem_cons_of_mem _ hq)
    rw [normalizeAll] at hp ⊢
    rw [List.mapM_cons, h p (by simp), hp]
    rfl

theorem contains_self (path : String) : Path.contains path path = true := by
  simp [Path.contains]

/-- Where no path lies below another, narrowing to paths of files asks for just these. -/
theorem Valid.narrow_paths (hv : I.Valid) {missing : Missing} {paths : List String}
    (hn : paths ≠ []) (hs : paths ⊆ I.paths)
    (hc : ∀ f ∈ I.files, ∀ g ∈ I.files, f.path ≠ g.path → Path.contains f.path g.path = false) :
    ∃ J, I.narrow missing paths [] = .ok J ∧ ∀ g, g ∈ J.files ↔
      ∃ f ∈ I.files, I.Reached paths f.path ∧ g = f.withImport (!(paths.contains f.path)) := by
  have hfile : ∀ p ∈ paths, ∃ f ∈ I.files, f.path = p := by
    intro p hp
    have := hs hp
    rw [hv.paths_eq] at this
    simpa using this
  have hnormal : normalizeAll paths = .ok paths := normalizeAll_of_normal fun p hp => by
    obtain ⟨f, hf, rfl⟩ := hfile p hp
    exact (hv.sound f hf).normal
  have hexcluded : ∀ ps, excluded? [] ps = none := by
    intro ps
    induction ps with
    | nil => rfl
    | cons p ps ih => simp [excluded?, ih]
  have hmatched : I.unmatched? paths = none := by
    rw [unmatched?, List.find?_eq_none]
    intro p hp
    obtain ⟨f, hf, rfl⟩ := hfile p hp
    simpa using ⟨f, hf, contains_self f.path⟩
  have hasked : ∀ p, p ∈ I.asked paths [] ↔ p ∈ paths := by
    intro p
    simp only [asked, hn, if_false, List.any_nil, Bool.not_false, List.filter_true, List.mem_map,
      List.mem_filter, List.any_eq_true]
    constructor
    · rintro ⟨f, ⟨hf, q, hq, hqf⟩, rfl⟩
      obtain ⟨g, hg, rfl⟩ := hfile q hq
      by_cases he : g.path = f.path
      · exact he ▸ hq
      · simp [hc g hg f hf he] at hqf
    · intro hp
      obtain ⟨f, hf, rfl⟩ := hfile p hp
      exact ⟨f, ⟨hf, f.path, hp, contains_self f.path⟩, rfl⟩
  have hne : I.asked paths [] ≠ [] := by
    obtain ⟨p, hp⟩ := List.exists_mem_of_ne_nil _ hn
    exact List.ne_nil_of_mem ((hasked p).mpr hp)
  obtain ⟨J, hJ, hm⟩ := hv.keep_ok hne fun p hp => hs ((hasked p).mp hp)
  refine ⟨J, ?_, fun g => ?_⟩
  · rw [narrow, hnormal]
    simp only [bind, Except.bind, normalizeAll, List.mapM_nil, pure, Except.pure]
    rw [narrowTo, if_neg (by simp [hn]), hexcluded, List.append_nil, hmatched]
    simp [hne, hJ]
  · rw [hm]
    have hr : ∀ p, I.Reached (I.asked paths []) p ↔ I.Reached paths p := fun p =>
      ⟨fun h => h.mono fun q hq => (hasked q).mp hq, fun h => h.mono fun q hq => (hasked q).mpr hq⟩
    have hb : ∀ p, (I.asked paths []).contains p = paths.contains p := by
      intro p
      rw [Bool.eq_iff_iff, List.contains_iff_mem, List.contains_iff_mem, hasked]
    simp only [hr, hb]

end Image
end DescriptorKit
