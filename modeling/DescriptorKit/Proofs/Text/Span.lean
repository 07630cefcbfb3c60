import Mathlib.Data.List.Basic

/-!
Classes of characters the way an expression writes them: `[0-9]` is `span '0' '9'`.
-/
namespace DescriptorKit.Text

variable {c first last : Char}

/-- The characters from one to another, with both ends. -/
def span (first last : Char) : List Char :=
  (List.range' first.toNat (last.toNat + 1 - first.toNat)).map Char.ofNat

theorem toNat_ofNat {n : Nat} (h : n < 0xd800) : (Char.ofNat n).toNat = n := by
  have hv : n.isValidChar := .inl h
  rw [Char.ofNat, dif_pos hv]
  rfl

theorem mem_span_iff (h : last.toNat < 0xd800) :
    c ∈ span first last ↔ first.toNat ≤ c.toNat ∧ c.toNat ≤ last.toNat := by
  simp only [span, List.mem_map, List.mem_range'_1]
  constructor
  · rintro ⟨n, hn, rfl⟩
    rw [toNat_ofNat (by omega)]
    omega
  · intro hc
    exact ⟨c.toNat, by omega, Char.ofNat_toNat c⟩

/-- `[0-9]` -/
def digits : List Char := span '0' '9'

/-- `[A-Za-z0-9]` -/
def alphanumerics : List Char := span 'A' 'Z' ++ span 'a' 'z' ++ span '0' '9'

theorem isDigit_iff : c.isDigit = true ↔ c ∈ digits := by
  rw [digits, mem_span_iff (by decide), Char.isDigit_iff_toNat]

theorem isUpper_iff : c.isUpper = true ↔ c ∈ span 'A' 'Z' := by
  rw [mem_span_iff (by decide)]
  exact decide_eq_true_iff

theorem isLower_iff : c.isLower = true ↔ c ∈ span 'a' 'z' := by
  have hboth : c.isLower = true ↔
    decide ('a'.val ≤ c.val) = true ∧ decide (c.val ≤ 'z'.val) = true :=
    Bool.and_eq_true_iff
  rw [mem_span_iff (by decide), hboth, decide_eq_true_iff, decide_eq_true_iff]
  rfl

theorem isAlphanum_iff : c.isAlphanum = true ↔ c ∈ alphanumerics := by
  have hany : c.isAlphanum = true ↔ (c.isUpper || c.isLower) = true ∨ c.isDigit = true :=
    Bool.or_eq_true_iff
  rw [alphanumerics, List.mem_append, List.mem_append, hany, Bool.or_eq_true_iff, isUpper_iff,
    isLower_iff, isDigit_iff, digits]

end DescriptorKit.Text
