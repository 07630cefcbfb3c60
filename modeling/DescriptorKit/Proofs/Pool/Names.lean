import DescriptorKit.Pool.Names
import DescriptorKit.Schema.OfDeclaration
import Mathlib.Data.List.Nodup
import Mathlib.Data.List.Pairwise
import Mathlib.Data.List.Perm.Basic
import Mathlib.Data.Option.Basic

/-!
Files whose names go together. Whether they do is the same in any order of the files, and a name
stands for the same in any order, unless it is that of a package: this is declared many times, and
belongs to the file that comes first.
-/
namespace DescriptorKit

section Found

variable {α β κ : Type} [DecidableEq κ] {l other : List α}

/-- Where one element at most leads to something, all orders lead to the same. -/
theorem findSome?_perm {q : α → Option β} (h : other.Perm l)
    (hone : l.Pairwise fun a b => q a = none ∨ q b = none) :
    other.findSome? q = l.findSome? q := by
  induction h with
  | nil => rfl
  | cons a _ ih => rw [List.findSome?_cons, List.findSome?_cons, ih (List.pairwise_cons.mp hone).2]
  | swap a b l =>
    have hab := (List.pairwise_cons.mp hone).1 b List.mem_cons_self
    simp only [List.findSome?_cons]
    rcases hab with h | h <;> rw [h]
  | trans _ h ih ih' => exact (ih ((h.pairwise_iff Or.symm).mpr hone)).trans (ih' hone)

/-- Of lists that share no keys, the same is found under a key in any order. -/
theorem find?_flatMap_perm {g : α → List β} {r : β → κ} (h : other.Perm l)
    (hone : l.Pairwise fun a b => ((g a).map r).Disjoint ((g b).map r)) (k : κ) :
    (other.flatMap g).find? (r · = k) = (l.flatMap g).find? (r · = k) := by
  rw [List.find?_flatMap, List.find?_flatMap]
  refine findSome?_perm h (hone.imp fun {a b} hdisjoint => ?_)
  by_contra hboth
  simp only [not_or, ← ne_eq, Option.ne_none_iff_exists'] at hboth
  obtain ⟨⟨x, hx⟩, y, hy⟩ := hboth
  have hkey : r x = r y :=
    (by simpa using List.find?_some hx : r x = k).trans
      (by simpa using List.find?_some hy : r y = k).symm
  exact hdisjoint (List.mem_map_of_mem (List.mem_of_find?_eq_some hx))
    (hkey ▸ List.mem_map_of_mem (List.mem_of_find?_eq_some hy))

/-- Where keys are apart, the same is found under a key in any order. -/
theorem find?_perm_of_nodup {r : α → κ} (h : other.Perm l) (hd : (l.map r).Nodup) (k : κ) :
    other.find? (r · = k) = l.find? (r · = k) := by
  have hone := find?_flatMap_perm (g := fun a => [a]) (r := r) h
    ((List.pairwise_map.mp hd).imp fun hne => by simpa [List.Disjoint] using hne) k
  simpa using hone

end Found

namespace Pool
open Names

variable {n : Names} {es : List Event} {s t : Symbol} {files other : List FileDecl}
  {known : List String} {name : String}

namespace Names

/-- The names that a walk declares. -/
def entered (es : List Event) : List Symbol :=
  es.filterMap fun
    | .declare s => some s
    | .fault _ => none

/-- Symbols may stand side by side: only packages share a name. -/
def Coexist (s t : Symbol) : Prop := s.name = t.name → s.sort = .package ∧ t.sort = .package

theorem Coexist.symm (h : Coexist s t) : Coexist t s := fun he => (h he.symm).symm

instance : Std.Symm Coexist := ⟨fun _ _ => Coexist.symm⟩

theorem mem_entered_iff : s ∈ entered es ↔ .declare s ∈ es := by
  simp only [entered, List.mem_filterMap]
  constructor
  · rintro ⟨e, he, h⟩
    cases e with
    | declare t => exact Option.some.inj h ▸ he
    | fault f => cases h
  · exact fun h => ⟨_, h, rfl⟩

theorem find?_cons (s : Symbol) (symbols : List Symbol) (name : String) :
    find? (s :: symbols) name = if s.name = name then some s else find? symbols name := by
  rw [find?, List.find?_cons]
  split <;> simp_all [find?]

theorem find?_name {symbols : List Symbol} (h : find? symbols name = some s) : s.name = name := by
  simpa using List.find?_some h

/-- A name stands for what it stood for before, or else for the first that is declared by it. -/
theorem find?_foldl (es : List Event) (n : Names) (name : String) :
    find? (es.foldl add n).symbols name =
      (find? n.symbols name).or (find? (entered es) name) := by
  induction es generalizing n with
  | nil => simp [entered, find?]
  | cons e es ih =>
    rw [List.foldl_cons, ih]
    cases e with
    | fault f => rfl
    | declare s =>
      have hd : entered (.declare s :: es) = s :: entered es := rfl
      rw [hd, find?_cons, add]
      cases hs : find? n.symbols s.name with
      | none =>
        dsimp only
        rw [find?_cons]
        split
        · rename_i he
          rw [← he, hs]
          rfl
        · rfl
      | some t =>
        dsimp only
        split
        all_goals
          split
          · rename_i he
            rw [← he, hs]
            rfl
          · rfl

/-- What a walk finds nothing wrong with: it meets no faults, and what it declares is apart from
each other and from what was there before. -/
structure Joins (n : Names) (es : List Event) : Prop where
  sound : ∀ f, .fault f ∉ es
  apart : (entered es).Pairwise Coexist
  fresh : ∀ s ∈ entered es, ∀ t, find? n.symbols s.name = some t → Coexist t s

theorem add_findings (n : Names) (e : Event) (h : (n.add e).findings = []) : n.findings = [] := by
  cases e with
  | fault f => cases h
  | declare s =>
    rw [add] at h
    split at h
    · exact h
    · split at h
      · exact h
      · cases h

theorem foldl_findings (es : List Event) (n : Names) (h : (es.foldl add n).findings = []) :
    n.findings = [] := by
  induction es generalizing n with
  | nil => exact h
  | cons e es ih => exact add_findings n e (ih _ h)

theorem joins_nil (n : Names) : Joins n [] := ⟨by simp, by simp [entered], by simp [entered]⟩

theorem not_joins_fault (f : Finding) : ¬ Joins n (.fault f :: es) :=
  fun h => h.sound f List.mem_cons_self

theorem joins_declare_iff : Joins n (.declare s :: es) ↔
    (∀ t, find? n.symbols s.name = some t → Coexist t s) ∧ (∀ t ∈ entered es, Coexist s t) ∧
      Joins n es := by
  have hd : entered (.declare s :: es) = s :: entered es := rfl
  constructor
  · rintro ⟨hsound, hapart, hfresh⟩
    rw [hd] at hapart hfresh
    obtain ⟨hs, hes⟩ := List.pairwise_cons.mp hapart
    obtain ⟨hone, hrest⟩ := List.forall_mem_cons.mp hfresh
    exact ⟨hone, hs, fun f hf => hsound f (List.mem_cons_of_mem _ hf), hes, hrest⟩
  · rintro ⟨hone, hs, hsound, hes, hrest⟩
    refine ⟨fun f hf => ?_, hd ▸ List.pairwise_cons.mpr ⟨hs, hes⟩,
      hd ▸ List.forall_mem_cons.mpr ⟨hone, hrest⟩⟩
    rcases List.mem_cons.mp hf with h | h
    · cases h
    · exact hsound f h

/-- What a new name asks of those after it, it asks where it stands among those before. -/
theorem joins_cons_iff (hs : find? n.symbols s.name = none) :
    Joins { n with symbols := s :: n.symbols } es ↔
      (∀ t ∈ entered es, Coexist s t) ∧ Joins n es := by
  constructor
  · rintro ⟨hsound, hapart, hfresh⟩
    refine ⟨fun t ht he => hfresh t ht s (by rw [find?_cons, if_pos he]) he, hsound, hapart,
      fun t ht u hu => ?_⟩
    refine hfresh t ht u ?_
    rw [find?_cons, if_neg (fun he => by rw [he, hu] at hs; cases hs), hu]
  · rintro ⟨hnew, hsound, hapart, hfresh⟩
    refine ⟨hsound, hapart, fun t ht u hu => ?_⟩
    rw [find?_cons] at hu
    split at hu
    · exact Option.some.inj hu ▸ hnew t ht
    · exact hfresh t ht u hu

theorem foldl_findings_iff :
    (es.foldl add n).findings = [] ↔ n.findings = [] ∧ Joins n es := by
  induction es generalizing n with
  | nil => simp [joins_nil]
  | cons e es ih =>
    rw [List.foldl_cons, ih]
    cases e with
    | fault f => simp [add, not_joins_fault]
    | declare s =>
      rw [joins_declare_iff, add]
      cases hs : find? n.symbols s.name with
      | none => simp [joins_cons_iff hs]
      | some t =>
        have hname := find?_name hs
        dsimp only
        split
        · rename_i hpackages
          refine and_congr_right fun _ => ⟨fun h => ⟨?_, fun u hu he => ?_, h⟩, fun h => h.2.2⟩
          · rintro _ ⟨⟩ -
            exact hpackages
          · exact ⟨hpackages.2, (h.fresh u hu t (he ▸ hs) (hname.trans he)).2⟩
        · rename_i hpackages
          refine iff_of_false (by simp) fun h => hpackages (h.2.1 t rfl hname)

/-- Files whose names go together, for a pool that holds none yet. -/
structure Fit (files : List FileDecl) : Prop where
  names : (files.map (·.name)).Nodup
  sound : ∀ f, .fault f ∉ files.flatMap Event.ofFile
  apart : (entered (files.flatMap Event.ofFile)).Pairwise Coexist

theorem Fit.perm (h : other.Perm files) (hf : Fit files) : Fit other where
  names := (h.map _).nodup_iff.mpr hf.names
  sound f := fun hm => hf.sound f ((h.flatMap_right _).mem_iff.mp hm)
  apart := (((h.flatMap_right _).filterMap _).pairwise_iff Coexist.symm).mpr hf.apart

theorem addFiles_findings (h : (addFiles known n files).findings = []) :
    n.findings = [] ∧ (∀ f ∈ files, f.name ∉ known) ∧ (files.map (·.name)).Nodup := by
  induction files generalizing known n with
  | nil => exact ⟨h, by simp⟩
  | cons f files ih =>
    rw [addFiles] at h
    obtain ⟨hn, hknown, hd⟩ := ih h
    have hn := foldl_findings _ _ hn
    split at hn
    · cases hn
    · rename_i hf
      refine ⟨hn, List.forall_mem_cons.mpr ⟨hf, fun g hg hmem => ?_⟩, ?_⟩
      · exact hknown g hg (List.mem_cons_of_mem _ hmem)
      · rw [List.map_cons, List.nodup_cons]
        refine ⟨fun hmem => ?_, hd⟩
        obtain ⟨g, hg, he⟩ := List.mem_map.mp hmem
        exact hknown g hg (he ▸ List.mem_cons_self)

theorem addFiles_eq (hk : ∀ f ∈ files, f.name ∉ known) (hd : (files.map (·.name)).Nodup) :
    addFiles known n files = (files.flatMap Event.ofFile).foldl add n := by
  induction files generalizing known n with
  | nil => rfl
  | cons f files ih =>
    obtain ⟨hf, hk⟩ := List.forall_mem_cons.mp hk
    rw [List.map_cons, List.nodup_cons] at hd
    rw [addFiles, List.flatMap_cons, List.foldl_append, if_neg hf]
    refine ih (fun g hg hmem => ?_) hd.2
    rcases List.mem_cons.mp hmem with he | hmem
    · exact hd.1 (he ▸ List.mem_map_of_mem hg)
    · exact hk g hg hmem

theorem joins_iff : Joins ⟨[], []⟩ (files.flatMap Event.ofFile) ↔
    (∀ f, .fault f ∉ files.flatMap Event.ofFile) ∧
      (entered (files.flatMap Event.ofFile)).Pairwise Coexist :=
  ⟨fun h => ⟨h.sound, h.apart⟩, fun h => ⟨h.1, h.2, by simp [find?]⟩⟩

theorem addFiles_findings_iff : (addFiles [] ⟨[], []⟩ files).findings = [] ↔ Fit files := by
  constructor
  · intro h
    obtain ⟨-, -, hd⟩ := addFiles_findings h
    rw [addFiles_eq (by simp) hd, foldl_findings_iff, joins_iff] at h
    exact ⟨hd, h.2.1, h.2.2⟩
  · intro h
    rw [addFiles_eq (by simp) h.names, foldl_findings_iff, joins_iff]
    exact ⟨rfl, h.sound, h.apart⟩

theorem find?_addFiles (h : Fit files) (name : String) :
    find? (addFiles [] ⟨[], []⟩ files).symbols name =
      find? (entered (files.flatMap Event.ofFile)) name := by
  rw [addFiles_eq (by simp) h.names, find?_foldl]
  rfl

/-- What a name stands for is the same, or a package both times. -/
def Interchangeable (s t : Symbol) : Prop := s = t ∨ (s.sort = .package ∧ t.sort = .package)

theorem Interchangeable.symm (h : Interchangeable s t) : Interchangeable t s :=
  h.imp Eq.symm And.symm

/-- Under each name stands the same, packages apart. -/
def SameEntries (symbols others : List Symbol) : Prop :=
  ∀ name, Option.Rel Interchangeable (find? symbols name) (find? others name)

/-- In any order the names of files stand for the same. -/
theorem sameEntries_addFiles (h : other.Perm files) (hf : Fit files) :
    SameEntries (addFiles [] ⟨[], []⟩ files).symbols (addFiles [] ⟨[], []⟩ other).symbols := by
  intro name
  rw [find?_addFiles hf, find?_addFiles (hf.perm h)]
  have hperm : (entered (other.flatMap Event.ofFile)).Perm
      (entered (files.flatMap Event.ofFile)) := (h.flatMap_right _).filterMap _
  cases hs : find? (entered (files.flatMap Event.ofFile)) name with
  | none =>
    have hnone : find? (entered (other.flatMap Event.ofFile)) name = none := by
      rw [find?, List.find?_eq_none] at hs ⊢
      exact fun t ht => hs t (hperm.mem_iff.mp ht)
    rw [hnone]
    exact .none
  | some s =>
    have hsome : (find? (entered (other.flatMap Event.ofFile)) name).isSome :=
      List.find?_isSome.mpr ⟨s, hperm.mem_iff.mpr (List.mem_of_find?_eq_some hs),
        by simpa using find?_name hs⟩
    obtain ⟨t, ht⟩ := Option.isSome_iff_exists.mp hsome
    rw [ht]
    refine .some ?_
    by_cases he : s = t
    · exact .inl he
    · exact .inr (hf.apart.forall (List.mem_of_find?_eq_some hs)
        (hperm.mem_iff.mp (List.mem_of_find?_eq_some ht)) he ((find?_name hs).trans
          (find?_name ht).symm))

end Names

end Pool
end DescriptorKit
