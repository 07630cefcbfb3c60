import DescriptorKit.Declaration.ToMessage
import DescriptorKit.Reparse
import Mathlib.Data.Set.Insert
import Mathlib.Logic.Relation

/-!
Which descriptors make the pool. Names are added until there are none to add; then they are those
from which imports lead out of the list. What is left is closed under imports, and no larger part
is.
-/
namespace DescriptorKit.Reparse

variable {ds es : List Descriptor} {present opened result : List String} {fuel : Nat}
  {name i : String}

/-- A descriptor of the name imports `i`. -/
def DependsOn (ds : List Descriptor) (name i : String) : Prop :=
  ∃ d ∈ ds, d.name = name ∧ i ∈ d.dependencies

/-- Imports lead from the name to one that no descriptor has. -/
def LeadsOut (ds : List Descriptor) (name : String) : Prop :=
  ∃ path, path ∉ ds.map (·.name) ∧ Relation.TransGen (DependsOn ds) name path

/-- The names that a round adds. -/
def added (ds : List Descriptor) (opened : List String) : List String :=
  (importing (ds.map (·.name)) opened ds).filter fun n => !opened.contains n

/-- Rounds go on until there is nothing to add. -/
inductive Rounds (ds : List Descriptor) : List String → List String → Prop where
  | done {opened : List String} (ended : added ds opened = []) : Rounds ds opened opened
  | more {opened result : List String} (goes : added ds opened ≠ [])
      (rest : Rounds ds (added ds opened ++ opened) result) : Rounds ds opened result

theorem mem_importing_iff :
    name ∈ importing present opened ds ↔ ∃ i, DependsOn ds name i ∧ (i ∉ present ∨ i ∈ opened) := by
  simp only [importing, List.mem_map, List.mem_filter, List.any_eq_true, Bool.or_eq_true,
    List.contains_iff_mem, Bool.not_eq_true', ← Bool.not_eq_true, DependsOn]
  constructor
  · rintro ⟨d, ⟨hd, i, hi, h⟩, rfl⟩
    exact ⟨i, ⟨d, hd, rfl, hi⟩, h⟩
  · rintro ⟨i, ⟨d, hd, rfl, hi⟩, h⟩
    exact ⟨d, ⟨hd, i, hi, h⟩, rfl⟩

theorem mem_added_iff : name ∈ added ds opened ↔
    (∃ i, DependsOn ds name i ∧ (i ∉ ds.map (·.name) ∨ i ∈ opened)) ∧ name ∉ opened := by
  simp [added, mem_importing_iff]

theorem DependsOn.mem (h : DependsOn ds name i) : name ∈ ds.map (·.name) :=
  let ⟨d, hd, hname, _⟩ := h
  List.mem_map.mpr ⟨d, hd, hname⟩

section Ending

/-- The names that there are still to add at most. -/
def remaining (ds : List Descriptor) (opened : List String) : List String :=
  (ds.map (·.name)).filter fun n => !opened.contains n

/-- A round that adds something leaves less to add. -/
theorem remaining_lt (h : added ds opened ≠ []) :
    (remaining ds (added ds opened ++ opened)).length < (remaining ds opened).length := by
  obtain ⟨n, hn⟩ := List.exists_mem_of_ne_nil _ h
  have hfilter : remaining ds (added ds opened ++ opened) =
      (remaining ds opened).filter fun n => !(added ds opened).contains n := by
    rw [remaining, remaining, List.filter_filter]
    exact List.filter_congr fun n _ => by simp [Bool.not_or]
  rw [hfilter, List.length_filter_lt_length_iff_exists]
  obtain ⟨⟨i, hi, -⟩, hnot⟩ := mem_added_iff.mp hn
  exact ⟨n, List.mem_filter.mpr ⟨hi.mem, by simpa using hnot⟩, by simpa using hn⟩

theorem closeOver_succ (ds : List Descriptor) (fuel : Nat) (opened : List String) :
    closeOver (ds.map (·.name)) ds (fuel + 1) opened =
      if added ds opened = [] then opened
      else closeOver (ds.map (·.name)) ds fuel (added ds opened ++ opened) := by
  rw [closeOver, ← added]
  cases added ds opened <;> rfl

theorem closeOver_rounds (h : (remaining ds opened).length < fuel) :
    Rounds ds opened (closeOver (ds.map (·.name)) ds fuel opened) := by
  induction fuel generalizing opened with
  | zero => exact absurd h (Nat.not_lt_zero _)
  | succ fuel ih =>
    rw [closeOver_succ]
    split
    · rename_i hended
      exact .done hended
    · rename_i hgoes
      exact .more hgoes (ih (Nat.lt_of_lt_of_le (remaining_lt hgoes) (Nat.le_of_lt_succ h)))

/-- The rounds end, with what they have added till then. -/
theorem incomplete_rounds (ds : List Descriptor) : Rounds ds [] (incomplete ds) := by
  have hnames : (ds.map (·.name)).length = ds.length := List.length_map _
  have hleft : (remaining ds []).length ≤ ds.length := hnames ▸ List.length_filter_le _ _
  exact closeOver_rounds (Nat.lt_succ_of_le hleft)

end Ending

section Exact

theorem leadsOut_of_imports (h : DependsOn ds name i) (hi : i ∉ ds.map (·.name) ∨ LeadsOut ds i) :
    LeadsOut ds name := by
  rcases hi with hi | ⟨path, hpath, hr⟩
  · exact ⟨i, hi, .single h⟩
  · exact ⟨path, hpath, .head h hr⟩

/-- Only names are added from which imports lead out. -/
theorem Rounds.leadsOut (h : Rounds ds opened result) (ho : ∀ n ∈ opened, LeadsOut ds n) :
    ∀ n ∈ result, LeadsOut ds n := by
  induction h with
  | done => exact ho
  | more _ _ ih =>
    refine ih fun n hn => ?_
    rcases List.mem_append.mp hn with hn | hn
    · obtain ⟨⟨i, hi, habsent⟩, -⟩ := mem_added_iff.mp hn
      exact leadsOut_of_imports hi (habsent.imp_right (ho i))
    · exact ho n hn

/-- When the rounds have ended, there is nothing to add. -/
theorem Rounds.closed (h : Rounds ds opened result) (hi : DependsOn ds name i)
    (ha : i ∉ ds.map (·.name) ∨ i ∈ result) : name ∈ result := by
  induction h with
  | @done opened ended =>
    by_contra hn
    have hmem : name ∈ added ds opened := mem_added_iff.mpr ⟨⟨i, hi, ha⟩, hn⟩
    simp [ended] at hmem
  | more _ _ ih => exact ih ha

theorem Rounds.mem_of_leadsOut (h : Rounds ds opened result) (hl : LeadsOut ds name) :
    name ∈ result := by
  obtain ⟨path, hpath, hr⟩ := hl
  induction hr using Relation.TransGen.head_induction_on with
  | single hi => exact h.closed hi (.inl hpath)
  | head hi _ ih => exact h.closed hi (.inr ih)

theorem mem_incomplete_iff : name ∈ incomplete ds ↔ LeadsOut ds name :=
  ⟨(incomplete_rounds ds).leadsOut nofun name, (incomplete_rounds ds).mem_of_leadsOut⟩

end Exact

section Pooled

/-- The descriptors that are given to the pool. -/
def pooled (ds : List Descriptor) : List Descriptor :=
  ds.filter fun d => !(incomplete ds).contains d.name

theorem mem_pooled_iff {d : Descriptor} : d ∈ pooled ds ↔ d ∈ ds ∧ ¬ LeadsOut ds d.name := by
  simp [pooled, ← mem_incomplete_iff]

theorem pool_eq (ds : List Descriptor) : pool ds =
    ((Pool.extend {} ((pooled ds).map Descriptor.decl)).map (·.1)).mapError (·.fault) := by
  rw [pool, pooled]
  cases Pool.extend {}
    ((ds.filter fun d => !(incomplete ds).contains d.name).map Descriptor.decl) <;> rfl

/-- Names of descriptors that with each descriptor's name hold those of its imports. -/
structure ImportClosed (ds : List Descriptor) (names : Set String) : Prop where
  present : ∀ n ∈ names, n ∈ ds.map (·.name)
  closed : ∀ d ∈ ds, d.name ∈ names → ∀ i ∈ d.dependencies, i ∈ names

theorem pooled_importClosed (ds : List Descriptor) :
    ImportClosed ds {n | n ∈ (pooled ds).map (·.name)} where
  present n hn := by
    obtain ⟨d, hd, rfl⟩ := List.mem_map.mp hn
    exact List.mem_map_of_mem (mem_pooled_iff.mp hd).1
  closed d hd hn i hi := by
    obtain ⟨e, he, hname⟩ := List.mem_map.mp hn
    have hin : ¬ LeadsOut ds d.name := hname ▸ (mem_pooled_iff.mp he).2
    have hi : DependsOn ds d.name i := ⟨d, hd, rfl, hi⟩
    have hpresent : i ∈ ds.map (·.name) := by
      by_contra habsent
      exact hin (leadsOut_of_imports hi (.inl habsent))
    obtain ⟨k, hk, rfl⟩ := List.mem_map.mp hpresent
    exact List.mem_map_of_mem (mem_pooled_iff.mpr
      ⟨hk, fun hout => hin (leadsOut_of_imports hi (.inr hout))⟩)

/-- From names that are closed under imports no imports lead out. -/
theorem ImportClosed.not_leadsOut {names : Set String} (h : ImportClosed ds names)
    (hn : name ∈ names) :
    ¬ LeadsOut ds name := by
  rintro ⟨path, hpath, hr⟩
  have hstep : ∀ {a b}, a ∈ names → DependsOn ds a b → b ∈ names := by
    rintro _ b ha ⟨d, hd, rfl, hi⟩
    exact h.closed d hd ha b hi
  have hreached : ∀ {b}, Relation.TransGen (DependsOn ds) name b → b ∈ names := by
    intro b hr
    induction hr with
    | single hi => exact hstep hn hi
    | tail _ hi ih => exact hstep ih hi
  exact hpath (h.present path (hreached hr))

theorem leadsOut_congr (h : es.Perm ds) : LeadsOut es name ↔ LeadsOut ds name := by
  have himports : DependsOn es = DependsOn ds := by
    ext a b
    exact exists_congr fun d => and_congr_left fun _ => h.mem_iff
  simp [LeadsOut, himports, h.mem_iff]

/-- In any order of the list the same descriptors are given to the pool. -/
theorem pooled_perm (h : es.Perm ds) : (pooled es).Perm (pooled ds) := by
  have hsame : (fun d : Descriptor => !(incomplete es).contains d.name) =
      fun d => !(incomplete ds).contains d.name := by
    funext d
    rw [Bool.eq_iff_iff]
    simp [mem_incomplete_iff, leadsOut_congr h]
  rw [pooled, pooled, hsame]
  exact h.filter _

/-- The names that are left out are those from which imports lead out of the list; the rest is the
largest part that is closed under imports, whatever the order of the list. -/
theorem incomplete_exact (ds : List Descriptor) :
    Rounds ds [] (incomplete ds) ∧
    (∀ name, name ∈ incomplete ds ↔ LeadsOut ds name) ∧
    (pool ds = ((Pool.extend {} ((pooled ds).map Descriptor.decl)).map (·.1)).mapError (·.fault) ∧
      ∀ d, d ∈ pooled ds ↔ d ∈ ds ∧ d.name ∉ incomplete ds) ∧
    ImportClosed ds {n | n ∈ (pooled ds).map (·.name)} ∧
    (∀ names, ImportClosed ds names → ∀ n ∈ names, n ∈ (pooled ds).map (·.name)) ∧
    ∀ es, es.Perm ds → (∀ name, name ∈ incomplete es ↔ name ∈ incomplete ds) ∧
      (pooled es).Perm (pooled ds) := by
  refine ⟨incomplete_rounds ds, fun _ => mem_incomplete_iff, ⟨pool_eq ds, fun d => ?_⟩,
    pooled_importClosed ds, fun names h n hn => ?_, fun es h => ⟨fun name => ?_, pooled_perm h⟩⟩
  · rw [mem_pooled_iff, mem_incomplete_iff]
  · obtain ⟨d, hd, rfl⟩ := List.mem_map.mp (h.present n hn)
    exact List.mem_map_of_mem (mem_pooled_iff.mpr ⟨hd, h.not_leadsOut hn⟩)
  · rw [mem_incomplete_iff, mem_incomplete_iff, leadsOut_congr h]

/-- Two files that import each other, and two files of one name of which one imports what imports a
missing file. -/
def tangled : List Descriptor :=
  let files : List FileDecl :=
    [{ name := "a.proto", dependencies := ["b.proto"] },
      { name := "d.proto", dependencies := ["a.proto"] },
      { name := "d.proto", dependencies := ["c.proto"] },
      { name := "c.proto", dependencies := ["a.proto", "gone.proto"] },
      { name := "b.proto", dependencies := ["a.proto"] }]
  files.map fun f => ⟨Bundled.descriptorSchema, Bundled.fileType, f.toMessage, f.toMessage⟩

theorem incomplete_exact_tangled : ImportClosed tangled {"a.proto", "b.proto"} ∧
    "a.proto" ∈ (pooled tangled).map (·.name) ∧ "d.proto" ∈ incomplete tangled ∧
    tangled.reverse.Perm tangled ∧ (pooled tangled.reverse).Perm (pooled tangled) := by
  have hclosed : ImportClosed tangled {"a.proto", "b.proto"} := by
    constructor
    · have hall : ∀ n ∈ ["a.proto", "b.proto"], n ∈ tangled.map (·.name) := by decide +kernel
      exact fun n hn => hall n (by simpa using hn)
    · have hall : ∀ d ∈ tangled, d.name ∈ ["a.proto", "b.proto"] →
          ∀ i ∈ d.dependencies, i ∈ ["a.proto", "b.proto"] := by decide +kernel
      exact fun d hd hn i hi => by simpa using hall d hd (by simpa using hn) i hi
  obtain ⟨-, hout, -, -, hlargest, horder⟩ := incomplete_exact tangled
  have hperm : tangled.reverse.Perm tangled := List.reverse_perm _
  have himports : DependsOn tangled "d.proto" "c.proto" ∧
    DependsOn tangled "c.proto" "gone.proto" := by
    unfold DependsOn
    decide +kernel
  refine ⟨hclosed, hlargest _ hclosed _ (by simp),
    (hout _).mpr ⟨"gone.proto", by decide +kernel, ?_⟩,
    hperm, (horder _ hperm).2⟩
  exact .tail (.single himports.1) himports.2

end Pooled

end DescriptorKit.Reparse
