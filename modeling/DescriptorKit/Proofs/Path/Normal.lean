import DescriptorKit.Proofs.Path
import Mathlib.Data.List.Induction

/-!
What a path is normalized to. Each `..` takes back the nearest named component before it that no
other has taken back; what is left is the normal form, and a path has none just where a `..` finds
nothing to take back.
-/
namespace DescriptorKit.Path

variable {cs left stack : List (List Char)} {c : List Char} {i j : Nat} {s : String}

/-- The component that leads back. -/
def back : List Char := ['.', '.']

/-- A component that leads on. -/
def Named (c : List Char) : Prop := c ≠ [] ∧ c ≠ ['.'] ∧ c ≠ back

instance : DecidablePred Named :=
  fun c => inferInstanceAs (Decidable (c ≠ [] ∧ c ≠ ['.'] ∧ c ≠ back))

def NamedAt (cs : List (List Char)) (i : Nat) : Prop := ∃ c, cs[i]? = some c ∧ Named c

/-- The `..` at place `j` cancels the named component at place `i`: no `..` before it does, and all
that is named between the two is cancelled before. -/
def Cancels (cs : List (List Char)) (i j : Nat) : Prop :=
  cs[j]? = some back ∧ i < j ∧ NamedAt cs i ∧ (∀ k, (_ : k < j) → ¬ Cancels cs i k) ∧
    ∀ m, i < m → m < j → NamedAt cs m → ∃ k, ∃ _ : k < j, Cancels cs m k
termination_by j

/-- The component at place `i` is named, and no `..` cancels it. -/
def Remains (cs : List (List Char)) (i : Nat) : Prop := NamedAt cs i ∧ ∀ j, ¬ Cancels cs i j

/-- The named components that no `..` cancels, in their order. -/
def Leaves (cs left : List (List Char)) : Prop :=
  ∃ places : List Nat, places.Pairwise (· < ·) ∧ (∀ i, i ∈ places ↔ Remains cs i) ∧
    places.map (cs[·]?) = left.map some

/-- Some first components hold more `..` than named ones. -/
def Escapes (cs : List (List Char)) : Prop :=
  ∃ ps, ps <+: cs ∧ ps.countP Named < ps.count back

section Step

theorem step_named (h : Named c) (stack : List (List Char)) : step stack c = some (c :: stack) := by
  simp only [step, h.1, h.2.1, or_self, if_false, show c ≠ ['.', '.'] from h.2.2]

theorem step_back (stack : List (List Char)) : step stack back = stack.tail? := by
  cases stack <;> rfl

/-- A component is named, leads back, or is left out. -/
theorem step_cases (stack : List (List Char)) (c : List Char) :
    (Named c ∧ step stack c = some (c :: stack)) ∨ (c = back ∧ step stack c = stack.tail?) ∨
      (¬ Named c ∧ c ≠ back ∧ step stack c = some stack) := by
  by_cases hn : Named c
  · exact .inl ⟨hn, step_named hn stack⟩
  · by_cases hb : c = back
    · exact .inr (.inl ⟨hb, hb ▸ step_back stack⟩)
    · refine .inr (.inr ⟨hn, hb, if_pos ?_⟩)
      by_contra h
      rw [not_or] at h
      exact hn ⟨h.1, h.2, hb⟩

theorem resolve_concat (stack cs : List (List Char)) (c : List Char) :
    resolve stack (cs ++ [c]) = (resolve stack cs).bind (step · c) := by
  induction cs generalizing stack with
  | nil =>
    change (step stack c).bind some = step stack c
    cases step stack c <;> rfl
  | cons d cs ih =>
    rw [List.cons_append, resolve, resolve]
    cases step stack d with
    | none => rfl
    | some next => exact ih next

end Step

section Escape

theorem escapes_concat_iff :
    Escapes (cs ++ [c]) ↔ Escapes cs ∨ (cs ++ [c]).countP Named < (cs ++ [c]).count back := by
  constructor
  · rintro ⟨ps, hps, h⟩
    rcases List.prefix_concat_iff.mp hps with rfl | hps
    · exact .inr h
    · exact .inl ⟨ps, hps, h⟩
  · rintro (⟨ps, hps, h⟩ | h)
    · exact ⟨ps, hps.trans (List.prefix_append _ _), h⟩
    · exact ⟨_, List.prefix_refl _, h⟩

/-- The stack is as high as there are more named components than `..`, as long as it holds. -/
theorem resolve_height (cs : List (List Char)) :
    (∃ stack, resolve [] cs = some stack ∧ ¬ Escapes cs ∧
      stack.length + cs.count back = cs.countP Named) ∨ resolve [] cs = none ∧ Escapes cs := by
  induction cs using List.reverseRecOn with
  | nil => exact .inl ⟨[], rfl, by rintro ⟨ps, hps, h⟩; simp [List.prefix_nil.mp hps] at h, rfl⟩
  | append_singleton cs c ih =>
    rw [resolve_concat, escapes_concat_iff]
    obtain ⟨stack, hr, hno, hlen⟩ | ⟨hr, hesc⟩ := ih
    · rw [hr, Option.bind_some, List.countP_append, List.count_append]
      obtain ⟨hn, hs⟩ | ⟨rfl, hs⟩ | ⟨hn, hb, hs⟩ := step_cases stack c
      · have hcount : [c].count back = 0 := by simp [hn.2.2]
        have hcountP : [c].countP Named = 1 := by simp [hn]
        refine .inl ⟨_, hs, ?_, ?_⟩
        · simp only [hno, false_or]
          omega
        · simp only [List.length_cons]
          omega
      · have hcount : [back].count back = 1 := by simp
        have hcountP : [back].countP Named = 0 := by decide
        cases stack with
        | nil => exact .inr ⟨hs, .inr (by simp only [List.length_nil] at hlen; omega)⟩
        | cons d rest =>
          simp only [List.length_cons] at hlen
          exact .inl ⟨rest, hs, by simp only [hno, false_or]; omega, by omega⟩
      · have hcount : [c].count back = 0 := by simp [hb]
        have hcountP : [c].countP Named = 0 := by simp [hn]
        exact .inl ⟨_, hs, by simp only [hno, false_or]; omega, by omega⟩
    · exact .inr ⟨by rw [hr]; rfl, .inl hesc⟩

theorem resolve_eq_none_iff : resolve [] cs = none ↔ Escapes cs := by
  obtain ⟨stack, hr, hno, -⟩ | ⟨hr, hesc⟩ := resolve_height cs
  · simp [hr, hno]
  · simp [hr, hesc]

end Escape

section Cancelling

theorem Cancels.lt_length (h : Cancels cs i j) : j < cs.length := by
  rw [Cancels] at h
  exact (List.getElem?_eq_some_iff.mp h.1).1

theorem NamedAt.lt_length (h : NamedAt cs i) : i < cs.length :=
  let ⟨_, hc, _⟩ := h
  (List.getElem?_eq_some_iff.mp hc).1

theorem namedAt_concat_of_lt (h : i < cs.length) : NamedAt (cs ++ [c]) i ↔ NamedAt cs i := by
  rw [NamedAt, NamedAt, List.getElem?_append_left h]

theorem namedAt_concat_length : NamedAt (cs ++ [c]) cs.length ↔ Named c := by
  simp [NamedAt]

/-- What a `..` cancels does not depend on what stands behind it. -/
theorem cancels_concat_of_lt (h : j < cs.length) : Cancels (cs ++ [c]) i j ↔ Cancels cs i j := by
  induction j using Nat.strongRecOn generalizing i with
  | _ j ih =>
    rw [Cancels, Cancels, List.getElem?_append_left h]
    refine and_congr_right fun _ => and_congr_right fun hij => ?_
    refine and_congr (namedAt_concat_of_lt (Nat.lt_trans hij h)) (and_congr ?_ ?_)
    · exact forall_congr' fun k => forall_congr' fun hk => not_congr (ih k hk (Nat.lt_trans hk h))
    · refine forall_congr' fun m => forall_congr' fun _ => forall_congr' fun hm => ?_
      refine imp_congr (namedAt_concat_of_lt (Nat.lt_trans hm h)) (exists_congr fun k => ?_)
      exact exists_congr fun hk => ih k hk (Nat.lt_trans hk h)

/-- A `..` at the end cancels the last component that remains without it. -/
theorem cancels_concat_length :
    Cancels (cs ++ [c]) i cs.length ↔ c = back ∧ Remains cs i ∧ ∀ m, i < m → ¬ Remains cs m := by
  have hbefore {m : Nat} : (∃ k, ∃ _ : k < cs.length, Cancels (cs ++ [c]) m k) ↔ ∃ k,
    Cancels cs m k :=
    ⟨fun ⟨k, hk, h⟩ => ⟨k, (cancels_concat_of_lt hk).mp h⟩,
      fun ⟨k, h⟩ => ⟨k, h.lt_length, (cancels_concat_of_lt h.lt_length).mpr h⟩⟩
  rw [Cancels, List.getElem?_concat_length]
  constructor
  · rintro ⟨hc, hi, hn, hfree, hbetween⟩
    refine ⟨Option.some.inj hc, ⟨(namedAt_concat_of_lt hi).mp hn, fun k h => ?_⟩,
      fun m him hm => ?_⟩
    · exact hfree k h.lt_length ((cancels_concat_of_lt h.lt_length).mpr h)
    · have hlt := hm.1.lt_length
      obtain ⟨k, h⟩ := hbefore.mp (hbetween m him hlt ((namedAt_concat_of_lt hlt).mpr hm.1))
      exact hm.2 k h
  · rintro ⟨rfl, hi, hlast⟩
    have hlt := hi.1.lt_length
    refine ⟨rfl, hlt, (namedAt_concat_of_lt hlt).mpr hi.1, fun k hk h => ?_, fun m him hm hn => ?_⟩
    · exact hi.2 k ((cancels_concat_of_lt hk).mp h)
    · refine hbefore.mpr ?_
      by_contra hfree
      rw [not_exists] at hfree
      exact hlast m him ⟨(namedAt_concat_of_lt hm).mp hn, hfree⟩

theorem exists_cancels_concat_iff : (∃ j, Cancels (cs ++ [c]) i j) ↔
    (∃ j, Cancels cs i j) ∨ c = back ∧ Remains cs i ∧ ∀ m, i < m → ¬ Remains cs m := by
  rw [← cancels_concat_length]
  constructor
  · rintro ⟨j, h⟩
    have hj : j < cs.length + 1 := by simpa using h.lt_length
    rcases Nat.lt_succ_iff_lt_or_eq.mp hj with hj | rfl
    · exact .inl ⟨j, (cancels_concat_of_lt hj).mp h⟩
    · exact .inr h
  · rintro (⟨j, h⟩ | h)
    · exact ⟨j, (cancels_concat_of_lt h.lt_length).mpr h⟩
    · exact ⟨_, h⟩

/-- One more component remains itself where it is named, and takes back the last one that remained
where it leads back. -/
theorem remains_concat_iff : Remains (cs ++ [c]) i ↔
    Remains cs i ∧ ¬ (c = back ∧ ∀ m, i < m → ¬ Remains cs m) ∨ i = cs.length ∧ Named c := by
  by_cases hi : i < cs.length
  · have hne : i ≠ cs.length := Nat.ne_of_lt hi
    rw [Remains, ← not_exists, exists_cancels_concat_iff, namedAt_concat_of_lt hi, Remains,
      ← not_exists]
    simp only [hne, false_and, or_false]
    tauto
  · have hcs : ¬ Remains cs i := fun h => hi h.1.lt_length
    simp only [hcs, false_and, false_or]
    constructor
    · rintro ⟨hn, -⟩
      obtain rfl : i = cs.length := by
        have := hn.lt_length
        simp only [List.length_append, List.length_singleton] at this
        omega
      exact ⟨rfl, namedAt_concat_length.mp hn⟩
    · rintro ⟨rfl, hn⟩
      refine ⟨namedAt_concat_length.mpr hn, fun j h => ?_⟩
      have hlen := h.lt_length
      rw [Cancels] at h
      simp only [List.length_append, List.length_singleton] at hlen
      omega

end Cancelling

section Leaving

theorem leaves_nil : Leaves [] [] :=
  ⟨[], .nil, fun i => ⟨nofun, fun h => absurd h.1.lt_length (Nat.not_lt_zero i)⟩, rfl⟩

/-- Places are read as before when a component is added. -/
theorem map_concat {places : List Nat} (h : ∀ i ∈ places, i < cs.length) :
    places.map ((cs ++ [c])[·]?) = places.map (cs[·]?) :=
  List.map_congr_left fun i hi => List.getElem?_append_left (h i hi)

theorem Leaves.named (h : Leaves cs left) (hc : Named c) : Leaves (cs ++ [c]) (left ++ [c]) := by
  obtain ⟨places, hasc, hmem, hmap⟩ := h
  have hlt : ∀ i ∈ places, i < cs.length := fun i hi => ((hmem i).mp hi).1.lt_length
  refine ⟨places ++ [cs.length], ?_, fun i => ?_, ?_⟩
  · rw [List.pairwise_append]
    exact ⟨hasc, List.pairwise_singleton _ _, by simpa using hlt⟩
  · simp [remains_concat_iff, hmem, hc, hc.2.2]
  · rw [List.map_append, map_concat hlt, hmap]
    simp

theorem Leaves.skip (h : Leaves cs left) (hn : ¬ Named c) (hb : c ≠ back) :
    Leaves (cs ++ [c]) left := by
  obtain ⟨places, hasc, hmem, hmap⟩ := h
  refine ⟨places, hasc, fun i => ?_, ?_⟩
  · simp [remains_concat_iff, hmem, hn, hb]
  · rw [map_concat fun i hi => ((hmem i).mp hi).1.lt_length, hmap]

theorem Leaves.takenBack (h : Leaves cs (left ++ [c])) : Leaves (cs ++ [back]) left := by
  obtain ⟨places, hasc, hmem, hmap⟩ := h
  obtain ⟨before, last, rfl⟩ : ∃ before last, places = before ++ [last] := by
    cases places using List.reverseRecOn with
    | nil => simp at hmap
    | append_singleton before last => exact ⟨before, last, rfl⟩
  obtain ⟨hbefore, -, hlast⟩ := List.pairwise_append.mp hasc
  have hlt (i : Nat) (hi : i ∈ before) : i < last := hlast i hi last (List.mem_singleton_self _)
  refine ⟨before, hbefore, fun i => ?_, ?_⟩
  · simp only [remains_concat_iff, ← hmem, List.mem_append, List.mem_singleton, true_and]
    have hback : ¬ Named back := fun h => h.2.2 rfl
    constructor
    · intro hi
      exact .inl ⟨.inl hi, fun hnone => hnone last (hlt i hi) (.inr rfl)⟩
    · rintro (⟨hi | rfl, hsome⟩ | ⟨-, hn⟩)
      · exact hi
      · refine absurd (fun m hm => ?_) hsome
        rintro (hmem | rfl)
        · exact Nat.lt_asymm hm (hlt m hmem)
        · exact Nat.lt_irrefl _ hm
      · exact absurd hn hback
  · rw [List.map_append, List.map_append] at hmap
    rw [map_concat fun i hi => ((hmem i).mp (List.mem_append_left _ hi)).1.lt_length]
    exact (List.append_inj' hmap rfl).1

theorem resolve_leaves (h : resolve [] cs = some stack) : Leaves cs stack.reverse := by
  induction cs using List.reverseRecOn generalizing stack with
  | nil =>
    obtain rfl := Option.some.inj h
    exact leaves_nil
  | append_singleton cs c ih =>
    rw [resolve_concat] at h
    obtain ⟨before, hbefore, hstep⟩ := Option.bind_eq_some_iff.mp h
    have hleaves := ih hbefore
    obtain ⟨hn, hs⟩ | ⟨rfl, hs⟩ | ⟨hn, hb, hs⟩ := step_cases before c
    · obtain rfl := Option.some.inj (hs.symm.trans hstep)
      rw [List.reverse_cons]
      exact hleaves.named hn
    · cases before with
      | nil => cases hs.symm.trans hstep
      | cons d rest =>
        obtain rfl := Option.some.inj (hs.symm.trans hstep)
        rw [List.reverse_cons] at hleaves
        exact hleaves.takenBack
    · obtain rfl := Option.some.inj (hs.symm.trans hstep)
      exact hleaves.skip hn hb

end Leaving

section Normalizing

/-- A text that stands for no path below its root. -/
def Abnormal (s : String) : Prop :=
  s = "" ∨ '\\' ∈ s.toList ∨ s.toList.head? = some '/' ∨ Escapes (Text.pieces '/' s.toList)

theorem normalize_of_not_abnormal (h : ¬ Abnormal s) : ∃ stack,
    resolve [] (Text.pieces '/' s.toList) = some stack ∧
      normalize s = .ok (String.ofList (ofComponents stack.reverse)) := by
  simp only [Abnormal, not_or] at h
  obtain ⟨hne, hback, hslash, hesc⟩ := h
  have hchars : s.toList ≠ [] := fun h => hne (String.toList_eq_nil_iff.mp h)
  obtain ⟨stack, hstack⟩ := Option.ne_none_iff_exists'.mp (mt resolve_eq_none_iff.mp hesc)
  refine ⟨stack, hstack, ?_⟩
  rw [normalize, if_neg hchars, if_neg hback, if_neg hslash, hstack]

theorem normalize_of_abnormal (h : Abnormal s) : ∃ fault, normalize s = .error fault := by
  rw [normalize]
  split
  · exact ⟨_, rfl⟩
  rename_i hne
  split
  · exact ⟨_, rfl⟩
  rename_i hback
  split
  · exact ⟨_, rfl⟩
  rename_i hslash
  obtain rfl | h | h | hesc := h
  · exact absurd rfl hne
  · exact absurd h hback
  · exact absurd h hslash
  · rw [resolve_eq_none_iff.mpr hesc]
    exact ⟨_, rfl⟩

theorem Plain.named (h : Plain c) : Named c := ⟨h.ne_nil, h.ne_dot, h.ne_dots⟩

/-- A path is in normal form that is the root, or named components without a backslash. -/
theorem normal_iff : normalize s = .ok s ↔
    s = "." ∨ '\\' ∉ s.toList ∧ ∀ c ∈ Text.pieces '/' s.toList, Named c := by
  constructor
  · intro h
    obtain ⟨cs, hs, hcs⟩ := exists_components h
    cases cs with
    | nil => exact .inl hs
    | cons c cs =>
      have hchars : s.toList = Text.glue '/' (c :: cs) := by rw [hs, String.toList_ofList]; rfl
      refine .inr ⟨fun hb => ?_, fun d hd => ?_⟩
      · rw [hchars] at hb
        obtain hb | ⟨d, hd, hb⟩ := Text.mem_glue hb
        · cases hb
        · exact (hcs d hd).backslash hb
      · rw [hchars, Text.pieces_glue (List.cons_ne_nil c cs) fun d hd => (hcs d hd).slash] at hd
        exact (hcs d hd).named
  · rintro (rfl | ⟨hback, hnamed⟩)
    · rfl
    · have hplain : ∀ c ∈ Text.pieces '/' s.toList, Plain c := fun c hc =>
        ⟨(hnamed c hc).1, (hnamed c hc).2.1, (hnamed c hc).2.2, Text.not_mem_of_mem_pieces _ c hc,
          fun hb => hback (Text.mem_of_mem_pieces _ c hc _ hb)⟩
      have hjoined : String.ofList (ofComponents (Text.pieces '/' s.toList)) = s := by
        obtain ⟨d, ds, hds⟩ := List.exists_cons_of_ne_nil (Text.pieces_ne_nil '/' s.toList)
        rw [hds, ofComponents, ← hds, Text.glue_pieces, String.ofList_toList]
        simp
      rw [← hjoined]
      exact normalize_ofComponents hplain

/-- Normalizing fails just for the texts that stand for no path below the root. Of the others it
keeps the named components that no `..` cancels; the result is in normal form, as are the texts just
that are the root or consist of named components. -/
theorem normalize_exact (s : String) :
    ((∃ fault, normalize s = .error fault) ↔ Abnormal s) ∧
    (¬ Abnormal s → ∃ left, Leaves (Text.pieces '/' s.toList) left ∧
      normalize s = .ok (if left = [] then "." else String.ofList (Text.glue '/' left))) ∧
    (∀ normal, normalize s = .ok normal → normalize normal = .ok normal) ∧
    (normalize s = .ok s ↔
      s = "." ∨ '\\' ∉ s.toList ∧ ∀ c ∈ Text.pieces '/' s.toList, Named c) := by
  refine ⟨⟨fun ⟨fault, h⟩ => ?_, normalize_of_abnormal⟩, fun h => ?_, fun _ => normalize_normal,
    normal_iff⟩
  · by_contra hn
    obtain ⟨stack, -, hok⟩ := normalize_of_not_abnormal hn
    cases h.symm.trans hok
  · obtain ⟨stack, hstack, hok⟩ := normalize_of_not_abnormal h
    refine ⟨stack.reverse, resolve_leaves hstack, ?_⟩
    rw [hok]
    cases stack.reverse <;> rfl

/-- The first `..` takes back `b`, the second one `a`. -/
theorem normalize_exact_nested : ¬ Abnormal "./a//b/../../c/" ∧
    normalize "./a//b/../../c/" = .ok "c" ∧ normalize "c" = .ok "c" := by
  have hok : normalize "./a//b/../../c/" = .ok "c" := by decide +kernel
  obtain ⟨hfails, -, hnormal, -⟩ := normalize_exact "./a//b/../../c/"
  refine ⟨fun h => ?_, hok, hnormal "c" hok⟩
  obtain ⟨fault, hfault⟩ := hfails.mpr h
  cases hfault.symm.trans hok

end Normalizing

end DescriptorKit.Path
