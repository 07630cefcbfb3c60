import DescriptorKit.Proofs.Wire.Pieces
import Mathlib.Algebra.BigOperators.Ring.Finset
import Mathlib.Algebra.Order.BigOperators.Group.Finset

/-!
What the numbers in front of records spell. Splitting keeps 64 bits of a number and 32 bits of the
number of a field, so it reads what is spelled as long as nothing lies above these.
-/
namespace DescriptorKit.Wire.Records

variable {b : Bytes} {d : UInt8} {k n used offset tag : Nat} {w : WireType}

/-- The number that the low seven bits of the first `n` bytes spell, the lowest first. -/
def spelled (b : Bytes) (n : Nat) : Nat :=
  ∑ i ∈ Finset.range n, (b.getD i 0).toNat % 128 * 2 ^ (7 * i)

/-- The first byte without a high bit is the last of the first `n`. -/
def EndsAt (b : Bytes) (n : Nat) : Prop :=
  ∃ front last rest, b = front ++ last :: rest ∧ n = front.length + 1 ∧
    (∀ d ∈ front, 128 ≤ d.toNat) ∧ last.toNat < 128

theorem spelled_cons (d : UInt8) (b : Bytes) (n : Nat) :
    spelled (d :: b) (n + 1) = d.toNat % 128 + 128 * spelled b n := by
  rw [spelled, Finset.sum_range_succ', spelled, Finset.mul_sum, Nat.add_comm]
  congr 1
  · simp
  · refine Finset.sum_congr rfl fun i _ => ?_
    rw [List.getD_cons_succ, Nat.mul_add, Nat.pow_add]
    ring

/-- The digit of a byte with its high bit set. -/
theorem mod_of_not_lt (h : ¬ d.toNat < 128) : d.toNat % 128 = d.toNat - 128 := by
  have := d.toNat_lt
  omega

@[simp] theorem spelled_zero (b : Bytes) : spelled b 0 = 0 := rfl

theorem spelled_lt (b : Bytes) (n : Nat) : spelled b n < 2 ^ (7 * n) := by
  induction n generalizing b with
  | zero => simp [spelled]
  | succ n ih =>
    cases b with
    | nil => simp [spelled]
    | cons d b =>
      have := ih b
      have hpow : 2 ^ (7 * (n + 1)) = 128 * 2 ^ (7 * n) := by ring
      rw [spelled_cons, hpow]
      omega

theorem endsAt_cons_of_lt (h : d.toNat < 128) : EndsAt (d :: b) n ↔ n = 1 := by
  constructor
  · rintro ⟨front, last, rest, he, rfl, hfront, -⟩
    cases front with
    | nil => rfl
    | cons e front =>
      obtain ⟨rfl, -⟩ := List.cons.inj he
      have := hfront d List.mem_cons_self
      omega
  · rintro rfl
    exact ⟨[], d, b, rfl, rfl, by simp, h⟩

theorem endsAt_cons_of_le (h : 128 ≤ d.toNat) :
    EndsAt (d :: b) n ↔ ∃ m, EndsAt b m ∧ n = m + 1 := by
  constructor
  · rintro ⟨front, last, rest, he, rfl, hfront, hlast⟩
    cases front with
    | nil =>
      obtain ⟨rfl, -⟩ := List.cons.inj he
      omega
    | cons e front =>
      obtain ⟨rfl, rfl⟩ := List.cons.inj he
      exact ⟨_, ⟨front, last, rest, rfl, rfl, (List.forall_mem_cons.mp hfront).2, hlast⟩, rfl⟩
  · rintro ⟨m, ⟨front, last, rest, rfl, rfl, hfront, hlast⟩, rfl⟩
    exact ⟨d :: front, last, rest, rfl, rfl, List.forall_mem_cons.mpr ⟨h, hfront⟩, hlast⟩

theorem digits_eq_some_iff :
    digits k b = some (n, used) ↔ EndsAt b used ∧ used ≤ k ∧ n = spelled b used := by
  induction k generalizing b n used with
  | zero =>
    simp only [digits, reduceCtorEq, false_iff]
    rintro ⟨⟨front, last, rest, -, rfl, -⟩, hle, -⟩
    omega
  | succ k ih =>
    cases b with
    | nil =>
      simp only [digits, reduceCtorEq, false_iff]
      rintro ⟨⟨front, last, rest, he, -⟩, -⟩
      cases front <;> cases he
    | cons d b =>
      rw [digits]
      split
      · rename_i hd
        rw [endsAt_cons_of_lt hd, Option.some.injEq, Prod.mk.injEq]
        constructor
        · rintro ⟨rfl, rfl⟩
          refine ⟨rfl, by omega, ?_⟩
          rw [spelled_cons, spelled_zero]
          omega
        · rintro ⟨rfl, -, rfl⟩
          refine ⟨?_, rfl⟩
          rw [spelled_cons, spelled_zero]
          omega
      · rename_i hd
        have hlow := mod_of_not_lt hd
        rw [endsAt_cons_of_le (by omega), Option.map_eq_some_iff]
        constructor
        · rintro ⟨⟨m, l⟩, hm, he⟩
          obtain ⟨rfl, rfl⟩ := Prod.mk.inj he
          obtain ⟨hends, hle, rfl⟩ := ih.mp hm
          exact ⟨⟨l, hends, rfl⟩, by omega, by rw [spelled_cons, hlow]⟩
        · rintro ⟨⟨l, hends, rfl⟩, hle, rfl⟩
          exact ⟨(spelled b l, l), ih.mpr ⟨hends, by omega, rfl⟩, by rw [spelled_cons, hlow]⟩

theorem varint_eq_some_iff :
    varint b = some (n, used) ↔ EndsAt b used ∧ used ≤ 10 ∧ n = spelled b used % 2 ^ 64 := by
  rw [varint, Option.map_eq_some_iff]
  constructor
  · rintro ⟨⟨m, l⟩, hm, he⟩
    obtain ⟨rfl, rfl⟩ := Prod.mk.inj he
    obtain ⟨hends, hle, rfl⟩ := digits_eq_some_iff.mp hm
    exact ⟨hends, hle, rfl⟩
  · rintro ⟨hends, hle, rfl⟩
    exact ⟨_, digits_eq_some_iff.mpr ⟨hends, hle, rfl⟩, rfl⟩

theorem varint_bounds (h : varint b = some (n, used)) :
    (1 ≤ used ∧ used ≤ 10 ∧ used ≤ b.length) ∧ n < 2 ^ 64 := by
  obtain ⟨⟨front, last, rest, rfl, rfl, -, -⟩, hle, rfl⟩ := varint_eq_some_iff.mp h
  refine ⟨⟨by omega, hle, ?_⟩, Nat.mod_lt _ (by decide)⟩
  simp only [List.length_append, List.length_cons]
  omega

/-- All that is spelled fits into 64 bits, unless the tenth byte holds more than one bit. -/
theorem spelled_lt_iff (h : EndsAt b n) (hn : n ≤ 10) :
    spelled b n < 2 ^ 64 ↔ (n = 10 → (b.getD 9 0).toNat ≤ 1) := by
  by_cases hten : n = 10
  · subst hten
    obtain ⟨front, last, rest, rfl, hlen, -, hlast⟩ := h
    have hnine : front.length = 9 := by omega
    have hget : (front ++ last :: rest).getD 9 0 = last := by
      rw [List.getD_eq_getElem?_getD, List.getElem?_append_right (by omega), hnine]
      rfl
    have hlow := spelled_lt (front ++ last :: rest) 9
    have hsum : spelled (front ++ last :: rest) 10 =
        spelled (front ++ last :: rest) 9 + last.toNat % 128 * 2 ^ 63 := by
      rw [spelled, Finset.sum_range_succ, hget]
      rfl
    rw [hsum, hget]
    omega
  · have hpow : 2 ^ (7 * n) ≤ 2 ^ 63 := Nat.pow_le_pow_right (by omega) (by omega)
    have := spelled_lt b n
    simp only [hten, false_implies, iff_true]
    omega

theorem measure_of_number_out {size : Nat} (ht : varint b = some (tag, used))
    (hw : WireType.ofCode? (tag % 8) = some w)
    (h : tag / 8 % 2 ^ 32 = 0 ∨ maxFieldNumber < tag / 8 % 2 ^ 32) :
    measure offset size b = .error (.fieldNumber (tag / 8 % 2 ^ 32)) := by
  have hne : b ≠ [] := by
    rintro rfl
    cases ht
  rw [measure, if_neg hne, ht]
  dsimp only
  rw [hw]
  exact if_pos h

/-- A number in front of a record is what its bytes spell, but for what lies above 64 bits; the
number of a field is what its tag spells, but for what lies above 32 bits. So it is right just if
the tag spells less than `2 ^ 35`, and then one that is out of range is refused as such. -/
theorem measure_tag_exact (b : Bytes) :
    (∀ v n, varint b = some (v, n) ↔ EndsAt b n ∧ n ≤ 10 ∧ v = spelled b n % 2 ^ 64) ∧
    (∀ n, EndsAt b n → n ≤ 10 → (spelled b n < 2 ^ 64 ↔ (n = 10 → (b.getD 9 0).toNat ≤ 1))) ∧
    (∀ offset size number length, measure offset size b = .ok (number, length) →
      ∃ tag n, varint b = some (tag, n) ∧ number = tag / 8 % 2 ^ 32 ∧ 1 ≤ number ∧
        number ≤ 2 ^ 29 - 1 ∧ (number = spelled b n / 8 ↔ spelled b n < 2 ^ 35)) ∧
    ∀ offset size tag n w, varint b = some (tag, n) → WireType.ofCode? (tag % 8) = some w →
      spelled b n < 2 ^ 35 → (spelled b n / 8 = 0 ∨ 2 ^ 29 ≤ spelled b n / 8) →
        measure offset size b = .error (.fieldNumber (spelled b n / 8)) := by
  refine ⟨fun v n => varint_eq_some_iff, fun n => spelled_lt_iff, ?_, ?_⟩
  · intro offset size number length h
    obtain ⟨tag, n, w, value, htag, -, hnumber, ⟨hpos, hmax⟩, -⟩ := measure_eq_ok_iff.mp h
    have hle : number ≤ 2 ^ 29 - 1 := hmax
    obtain ⟨-, -, hspelled⟩ := varint_eq_some_iff.mp htag
    refine ⟨tag, n, htag, hnumber, hpos, hle, ?_⟩
    omega
  · intro offset size tag n w htag hw hlt hout
    obtain ⟨-, -, hspelled⟩ := varint_eq_some_iff.mp htag
    have hsame : tag / 8 % 2 ^ 32 = spelled b n / 8 := by omega
    rw [← hsame]
    refine measure_of_number_out htag hw ?_
    rw [maxFieldNumber]
    omega

/-- A record of the greatest number, whose tag takes all ten bytes. -/
def padded : Bytes := [0xfa, 0xff, 0xff, 0xff, 0x8f, 0x80, 0x80, 0x80, 0x80, 0x00, 0x00]

/-- A record whose number is one too great. -/
def beyond : Bytes := Varint.encode (8 * 2 ^ 29) ++ [0x01]

theorem measure_tag_exact_padded :
    (EndsAt padded 10 ∧ varint padded = some (2 ^ 32 - 6, 10) ∧ spelled padded 10 < 2 ^ 64) ∧
    (∃ tag n, varint padded = some (tag, n) ∧ 2 ^ 29 - 1 = tag / 8 % 2 ^ 32 ∧
      (2 ^ 29 - 1 = spelled padded n / 8 ↔ spelled padded n < 2 ^ 35)) ∧
    varint beyond = some (2 ^ 32, 5) ∧ spelled beyond 5 = 2 ^ 32 ∧
      measure 0 beyond.length beyond = .error (.fieldNumber (2 ^ 29)) := by
  obtain ⟨hvarint, hfits, hmeasure, -⟩ := measure_tag_exact padded
  obtain ⟨-, -, -, hout⟩ := measure_tag_exact beyond
  have htag : varint padded = some (2 ^ 32 - 6, 10) := by decide +kernel
  obtain ⟨hends, hle, -⟩ := (hvarint _ _).mp htag
  have hlt := (hfits 10 hends hle).mpr fun _ => by decide
  have hpadded : measure 0 padded.length padded = .ok (2 ^ 29 - 1, 11) := by decide +kernel
  obtain ⟨tag, n, hn, hnumber, -, -, hiff⟩ := hmeasure 0 _ _ _ hpadded
  have hbeyond : varint beyond = some (2 ^ 32, 5) := by decide +kernel
  have hspelled : spelled beyond 5 = 2 ^ 32 := by decide +kernel
  have hrefused := hout 0 beyond.length _ 5 .varint hbeyond rfl
    (by rw [hspelled]; decide) (by rw [hspelled]; decide)
  rw [hspelled] at hrefused
  exact ⟨⟨hends, htag, hlt⟩, ⟨tag, n, hn, hnumber, hiff⟩, hbeyond, hspelled, hrefused⟩

/-- A number whose tenth byte holds two bits. -/
def lost : Bytes := [0x80, 0x80, 0x80, 0x80, 0x80, 0x80, 0x80, 0x80, 0x80, 0x02]

/-- A record whose number is that for metadata but for a bit above 32. -/
def wide : Bytes := Varint.encode (8 * (2 ^ 32 + 8042) + 2) ++ [0x00]

/-- Bits are lost without notice, and a number that is too great is taken for another. -/
theorem not_exact_wide :
    (¬ ∀ b v n, varint b = some (v, n) → v = spelled b n) ∧
    ¬ ∀ b number length tag n, measure 0 b.length b = .ok (number, length) →
      varint b = some (tag, n) → number = spelled b n / 8 := by
  constructor
  · intro h
    have hlost : varint lost = some (0, 10) := by decide +kernel
    have hspelled : spelled lost 10 = 2 ^ 64 := by decide +kernel
    have := (h lost 0 10 hlost).trans hspelled
    omega
  · intro h
    have hmeasure : measure 0 wide.length wide = .ok (8042, 7) := by decide +kernel
    have htag : varint wide = some (8 * (2 ^ 32 + 8042) + 2, 6) := by decide +kernel
    have hspelled : spelled wide 6 = 8 * (2 ^ 32 + 8042) + 2 := by decide +kernel
    have := h wide 8042 7 _ 6 hmeasure htag
    rw [hspelled] at this
    omega

end DescriptorKit.Wire.Records
