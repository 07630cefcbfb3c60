import DescriptorKit.Managed.Version
import DescriptorKit.Proofs.Path.Normal
import DescriptorKit.Proofs.Text.Span
import Mathlib.Computability.RegularExpressions
import Mathlib.Data.List.TakeWhile

/-!
Versions as words of a regular expression. Digits are taken greedily, but nothing that may stand
behind them starts with a digit, so there is only one way to take a version apart.
-/
namespace DescriptorKit

namespace Text

variable {mark : Char} {s last : List Char}

/-- `last` is what stands behind the last mark, or all of the text if there is no mark. -/
def IsLastPart (mark : Char) (s last : List Char) : Prop :=
  mark ∉ last ∧ (s = last ∨ ∃ front, s = front ++ mark :: last)

theorem isLastPart_iff : IsLastPart mark s last ↔ (pieces mark s).getLastD [] = last := by
  constructor
  · rintro ⟨hm, rfl | ⟨front, rfl⟩⟩
    · rw [pieces_of_not_mem hm]
      rfl
    · rw [pieces_append, pieces_of_not_mem hm]
      simp
  · rintro rfl
    have hglue := glue_pieces mark s
    have hm : ∀ p ∈ pieces mark s, mark ∉ p := not_mem_of_mem_pieces s
    cases h : pieces mark s using List.reverseRecOn with
    | nil => exact absurd h (pieces_ne_nil mark s)
    | append_singleton front last =>
      rw [h] at hglue hm
      rw [List.getLastD_concat]
      refine ⟨hm last (by simp), ?_⟩
      by_cases hf : front = []
      · left
        rw [← hglue, hf]
        rfl
      · right
        exact ⟨glue mark front, by rw [← hglue, glue_append hf (by simp)]; rfl⟩

end Text

namespace Managed.Version
open RegularExpression Text
open scoped Computability

variable {c : Char} {cs rest x : List Char} {l : Language Char}

section Expressions

/-- One of the characters. -/
def oneOf (cs : List Char) : RegularExpression Char := (cs.map char).sum

/-- The literal itself. -/
def literal (cs : List Char) : RegularExpression Char := (cs.map char).prod

/-- Any number of the characters. -/
def anyOf (cs : List Char) : RegularExpression Char := .star (oneOf cs)

/-- At least one of the characters. -/
def someOf (cs : List Char) : RegularExpression Char := oneOf cs * anyOf cs

theorem mem_oneOf : x ∈ (oneOf cs).matches' ↔ ∃ c ∈ cs, x = [c] := by
  induction cs with
  | nil => simp [oneOf, Language.notMem_zero]
  | cons c cs ih =>
    have hsum : oneOf (c :: cs) = char c + oneOf cs := by simp [oneOf]
    rw [hsum, matches'_add, Language.mem_add, ih, List.exists_mem_cons_iff]
    exact or_congr_left Set.mem_singleton_iff

theorem mem_literal : x ∈ (literal cs).matches' ↔ x = cs := by
  induction cs generalizing x with
  | nil => exact Language.mem_one x
  | cons c cs ih =>
    have hprod : literal (c :: cs) = char c * literal cs := by simp [literal]
    rw [hprod, matches'_mul, Language.mem_mul]
    constructor
    · rintro ⟨a, ha, b, hb, rfl⟩
      rw [ih.mp hb, Set.mem_singleton_iff.mp ha]
      rfl
    · rintro rfl
      exact ⟨[c], Set.mem_singleton _, cs, ih.mpr rfl, rfl⟩

theorem mem_literal_mul : x ∈ (literal cs).matches' * l ↔ ∃ rest ∈ l, x = cs ++ rest := by
  simp [Language.mem_mul, mem_literal, eq_comm]

theorem mem_anyOf : x ∈ (anyOf cs).matches' ↔ ∀ c ∈ x, c ∈ cs := by
  rw [anyOf, matches'_star, Language.mem_kstar]
  constructor
  · rintro ⟨parts, rfl, hparts⟩ c hc
    obtain ⟨part, hpart, hc⟩ := List.mem_flatten.mp hc
    obtain ⟨d, hd, rfl⟩ := mem_oneOf.mp (hparts part hpart)
    rwa [List.mem_singleton.mp hc]
  · intro hx
    refine ⟨x.map fun c => [c], by rw [← List.flatMap_def, List.flatMap_singleton'], ?_⟩
    intro y hy
    obtain ⟨c, hc, rfl⟩ := List.mem_map.mp hy
    exact mem_oneOf.mpr ⟨c, hx c hc, rfl⟩

theorem mem_someOf : x ∈ (someOf cs).matches' ↔ ∃ c rest, x = c :: rest ∧ ∀ d ∈ x, d ∈ cs := by
  rw [someOf, matches'_mul, Language.mem_mul]
  constructor
  · rintro ⟨a, ha, b, hb, rfl⟩
    obtain ⟨c, hc, rfl⟩ := mem_oneOf.mp ha
    exact ⟨c, b, rfl, List.forall_mem_cons.mpr ⟨hc, mem_anyOf.mp hb⟩⟩
  · rintro ⟨c, rest, rfl, hx⟩
    obtain ⟨hc, hrest⟩ := List.forall_mem_cons.mp hx
    exact ⟨[c], mem_oneOf.mpr ⟨c, hc, rfl⟩, rest, mem_anyOf.mpr hrest, rfl⟩

end Expressions

/-- `(alpha|beta)[0-9]*` -/
def stage : RegularExpression Char :=
  (literal "alpha".toList + literal "beta".toList) * anyOf digits

/-- `|test[A-Za-z0-9]*|(|p[0-9]+)(alpha|beta)[0-9]*` -/
def tail : RegularExpression Char :=
  1 + literal "test".toList * anyOf alphanumerics + (1 + literal "p".toList * someOf digits) * stage

/-- `v[0-9]+(|test[A-Za-z0-9]*|(|p[0-9]+)(alpha|beta)[0-9]*)` -/
def version : RegularExpression Char := literal "v".toList * someOf digits * tail

theorem all_isDigit_iff : x.all Char.isDigit = true ↔ x ∈ (anyOf digits).matches' := by
  simp only [List.all_eq_true, isDigit_iff, mem_anyOf]

theorem all_isAlphanum_iff :
    x.all Char.isAlphanum = true ↔ x ∈ (anyOf alphanumerics).matches' := by
  simp only [List.all_eq_true, isAlphanum_iff, mem_anyOf]

/-- Taking all digits off the front is right where none can follow. -/
theorem exists_afterDigits?_iff (hl : ∀ y ∈ l, ∀ c ∈ y.head?, c ∉ digits) :
    (∃ rest, afterDigits? x = some rest ∧ rest ∈ l) ↔ x ∈ (someOf digits).matches' * l := by
  rw [Language.mem_mul]
  constructor
  · rintro ⟨rest, hrest, hmem⟩
    cases x with
    | nil => cases hrest
    | cons c x =>
      rw [afterDigits?] at hrest
      split at hrest
      · rename_i hc
        obtain rfl := Option.some.inj hrest
        refine ⟨c :: x.takeWhile Char.isDigit, mem_someOf.mpr ⟨c, _, rfl, ?_⟩, _, hmem, ?_⟩
        · refine List.forall_mem_cons.mpr ⟨isDigit_iff.mp hc, fun d hd => isDigit_iff.mp ?_⟩
          exact List.mem_takeWhile_imp hd
        · rw [List.cons_append, List.takeWhile_append_dropWhile]
      · cases hrest
  · rintro ⟨ds, hds, rest, hrest, rfl⟩
    obtain ⟨c, ds, rfl, hall⟩ := mem_someOf.mp hds
    obtain ⟨hc, hds⟩ := List.forall_mem_cons.mp hall
    have hstop : rest.dropWhile Char.isDigit = rest := by
      cases rest with
      | nil => rfl
      | cons d rest =>
        have hd := hl _ hrest d rfl
        rw [List.dropWhile_cons_of_neg (mt isDigit_iff.mp hd)]
    refine ⟨rest, ?_, hrest⟩
    rw [List.cons_append, afterDigits?, if_pos (isDigit_iff.mpr hc),
      List.dropWhile_append_of_pos fun d hd => isDigit_iff.mpr (hds d hd), hstop]

section Lead

variable {lead : List Char}

theorem mem_literal_mul_of_some (h : stripLead? lead x = some rest) :
    x ∈ (literal lead).matches' * l ↔ rest ∈ l := by
  rw [stripLead?_eq_some_iff.mp h]
  simp [mem_literal_mul]

theorem not_mem_literal_mul_of_none (h : stripLead? lead x = none) :
    x ∉ (literal lead).matches' * l := by
  rw [mem_literal_mul]
  rintro ⟨rest, -, hx⟩
  rw [stripLead?_eq_some_iff.mpr hx] at h
  cases h

/-- A text does not start with two words whose first characters differ. -/
theorem not_mem_literal_mul_of_ne (hc : x.head? = some c) (h : lead.head? ≠ some c)
    (hne : lead ≠ []) :
    x ∉ (literal lead).matches' * l := by
  rw [mem_literal_mul]
  rintro ⟨rest, -, rfl⟩
  rw [List.head?_append_of_ne_nil _ hne] at hc
  exact h hc

end Lead

theorem matches'_stage : stage.matches' =
    (literal "alpha".toList).matches' * (anyOf digits).matches' +
    (literal "beta".toList).matches' * (anyOf digits).matches' := by
  rw [stage, matches'_mul, matches'_add, add_mul]

theorem matches'_tail : tail.matches' =
    1 + (literal "test".toList).matches' * (anyOf alphanumerics).matches' +
      (stage.matches' + (literal "p".toList).matches' *
        ((someOf digits).matches' * stage.matches')) := by
  simp only [tail, matches'_mul, matches'_add, matches'_epsilon, add_mul, one_mul, mul_assoc]

theorem matches'_version : version.matches' =
    (literal "v".toList).matches' * ((someOf digits).matches' * tail.matches') := by
  simp only [version, matches'_mul, mul_assoc]

theorem head?_of_mem_stage (h : x ∈ stage.matches') : x.head? = some 'a' ∨ x.head? = some 'b' := by
  rw [matches'_stage, Language.mem_add, mem_literal_mul, mem_literal_mul] at h
  rcases h with ⟨rest, -, rfl⟩ | ⟨rest, -, rfl⟩
  · exact .inl rfl
  · exact .inr rfl

theorem head?_of_mem_tail (h : x ∈ tail.matches') : ∀ c ∈ x.head?, c ∈ ['t', 'a', 'b', 'p'] := by
  rw [matches'_tail, Language.mem_add, Language.mem_add, Language.mem_add, Language.mem_one,
    mem_literal_mul, mem_literal_mul] at h
  rcases h with (rfl | ⟨rest, -, rfl⟩) | h | ⟨rest, -, rfl⟩
  · simp
  · simp
  · rcases head?_of_mem_stage h with h | h <;> simp [h]
  · simp

theorem isStage_iff : isStage x = true ↔ x ∈ stage.matches' := by
  rw [matches'_stage, Language.mem_add, isStage]
  split
  · rename_i rest ha
    have hb : x.head? = some 'a' := by rw [stripLead?_eq_some_iff.mp ha]; rfl
    rw [mem_literal_mul_of_some ha, all_isDigit_iff, or_iff_left]
    exact not_mem_literal_mul_of_ne hb (by decide) (by decide)
  · rename_i ha
    rw [or_iff_right (not_mem_literal_mul_of_none ha)]
    split
    · rename_i rest hb
      rw [mem_literal_mul_of_some hb, all_isDigit_iff]
    · rename_i hb
      simpa using not_mem_literal_mul_of_none hb

theorem not_mem_stage (hc : x.head? = some c) (ha : c ≠ 'a') (hb : c ≠ 'b') :
    x ∉ stage.matches' := by
  intro h
  rcases head?_of_mem_stage h with h | h
  · exact ha (Option.some.inj (hc.symm.trans h))
  · exact hb (Option.some.inj (hc.symm.trans h))

theorem not_mem_digits_of_mem_stage : ∀ y ∈ stage.matches', ∀ c ∈ y.head?, c ∉ digits := by
  intro y hy c hc
  rcases head?_of_mem_stage hy with h | h <;> (rw [h] at hc; cases hc; decide)

theorem not_mem_digits_of_mem_tail : ∀ y ∈ tail.matches', ∀ c ∈ y.head?, c ∉ digits := by
  intro y hy c hc
  have hhead := head?_of_mem_tail hy c hc
  simp only [List.mem_cons, List.not_mem_nil, or_false] at hhead
  rcases hhead with rfl | rfl | rfl | rfl <;> decide

theorem isTail_iff : isTail x = true ↔ x ∈ tail.matches' := by
  rw [matches'_tail, Language.mem_add, Language.mem_add, Language.mem_add, Language.mem_one]
  unfold isTail
  split
  · rename_i hx
    simp [hx]
  · rename_i hx
    rw [or_iff_right hx]
    split
    · rename_i rest ht
      have hhead : x.head? = some 't' := by rw [stripLead?_eq_some_iff.mp ht]; rfl
      rw [mem_literal_mul_of_some ht, all_isAlphanum_iff, or_iff_left]
      exact not_or.mpr ⟨not_mem_stage hhead (by decide) (by decide),
        not_mem_literal_mul_of_ne hhead (by decide) (by decide)⟩
    · rename_i ht
      rw [or_iff_right (not_mem_literal_mul_of_none ht)]
      split
      · rename_i point
        have hpoint : stripLead? "p".toList ('p' :: point) = some point := rfl
        rw [or_iff_right (not_mem_stage rfl (by decide) (by decide)),
          mem_literal_mul_of_some hpoint,
          ← exists_afterDigits?_iff not_mem_digits_of_mem_stage]
        cases afterDigits? point <;> simp [isStage_iff]
      · rename_i hp
        rw [isStage_iff, or_iff_left]
        rw [mem_literal_mul]
        rintro ⟨point, -, rfl⟩
        exact hp point rfl

theorem isVersion_iff : isVersion x = true ↔ x ∈ version.matches' := by
  rw [matches'_version]
  unfold isVersion
  split
  · rename_i rest
    have hv : stripLead? "v".toList ('v' :: rest) = some rest := rfl
    rw [mem_literal_mul_of_some hv, ← exists_afterDigits?_iff not_mem_digits_of_mem_tail]
    cases afterDigits? rest <;> simp [isTail_iff]
  · rename_i hv
    simp only [Bool.false_eq_true, false_iff, mem_literal_mul]
    rintro ⟨rest, -, rfl⟩
    exact hv rest rfl

/-- The versions are the words of `v[0-9]+(|test[A-Za-z0-9]*|(|p[0-9]+)(alpha|beta)[0-9]*)`, and
that of a package is what stands behind its last dot, if that is such a word. -/
theorem version_exact :
    (∀ cs, isVersion cs = true ↔ cs ∈ version.matches') ∧
    (∀ package found, ofPackage? package = some found ↔
      IsLastPart '.' package.toList found.toList ∧ found.toList ∈ version.matches') ∧
    ∀ package, (ofPackage? package).isSome = true ↔
      ∃ last, IsLastPart '.' package.toList last ∧ last ∈ version.matches' := by
  have hpackage : ∀ package found, ofPackage? package = some found ↔
      IsLastPart '.' package.toList found.toList ∧ found.toList ∈ version.matches' := by
    intro package found
    rw [isLastPart_iff, ofPackage?, ← isVersion_iff]
    generalize (pieces '.' package.toList).getLastD [] = last
    split
    · rename_i hlast
      rw [Option.some.injEq]
      constructor
      · rintro rfl
        rw [String.toList_ofList]
        exact ⟨rfl, hlast⟩
      · rintro ⟨rfl, -⟩
        exact String.ofList_toList
    · rename_i hlast
      simp only [reduceCtorEq, false_iff, not_and]
      rintro rfl
      exact hlast
  refine ⟨fun cs => isVersion_iff, hpackage, fun package => ?_⟩
  rw [Option.isSome_iff_exists]
  constructor
  · rintro ⟨found, hfound⟩
    exact ⟨found.toList, (hpackage package found).mp hfound⟩
  · rintro ⟨last, hlast⟩
    refine ⟨String.ofList last, (hpackage package _).mpr ?_⟩
    rwa [String.toList_ofList]

end Managed.Version
end DescriptorKit
