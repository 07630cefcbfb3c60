import DescriptorKit.Bytes
import Mathlib.Data.String.Basic

/-!
Texts compared by their bytes. The bytes of two characters differ at a place that both have, and
there they are ordered as the characters are; so bytes tell the order of texts, and which is a
prefix of which.
-/
namespace DescriptorKit.Bytes

/-- Where the first difference is, both have a byte, and that of the first is less. -/
inductive Below : Bytes → Bytes → Prop where
  | head {a b : UInt8} {u v : Bytes} (h : a < b) : Below (a :: u) (b :: v)
  | tail {a : UInt8} {u v : Bytes} (h : Below u v) : Below (a :: u) (a :: v)

variable {u v : Bytes} {c d : Char} {cs ds : List Char} {m n : Nat} {s t : String}

theorem Below.append (h : Below u v) (x y : Bytes) : Below (u ++ x) (v ++ y) := by
  induction h with
  | head h => exact .head h
  | tail _ ih => exact .tail ih

theorem Below.lt (h : Below u v) : u < v := by
  induction h with
  | head h => exact .rel h
  | tail _ ih => exact .cons ih

theorem Below.not_prefixed (h : Below u v) : ¬ u <+: v ∧ ¬ v <+: u := by
  induction h with
  | head h => simp [List.cons_prefix_cons, (UInt8.ne_of_lt h), (UInt8.ne_of_lt h).symm]
  | tail _ ih => simpa [List.cons_prefix_cons] using ih

theorem below_ofNat (hn : n < 256) (hle : m ≤ n) (h : m = n → Below u v) :
    Below (UInt8.ofNat m :: u) (UInt8.ofNat n :: v) := by
  rcases Nat.lt_or_eq_of_le hle with hlt | rfl
  · refine .head ?_
    rw [UInt8.lt_iff_toNat_lt, UInt8.toNat_ofNat', UInt8.toNat_ofNat']
    omega
  · exact .tail (h rfl)

section Digits

/-- The bytes behind the first one hold six bits each, the highest first. -/
theorem below_last (h : m % 64 < n % 64) :
    Below [UInt8.ofNat (m % 64 + 128)] [UInt8.ofNat (n % 64 + 128)] :=
  below_ofNat (by omega) (by omega) fun heq => by omega

theorem below_last_two (h : m % 4096 < n % 4096) :
    Below [UInt8.ofNat (m / 64 % 64 + 128), UInt8.ofNat (m % 64 + 128)]
      [UInt8.ofNat (n / 64 % 64 + 128), UInt8.ofNat (n % 64 + 128)] :=
  below_ofNat (by omega) (by omega) fun heq => below_last (by omega)

theorem below_last_three (h : m % 262144 < n % 262144) :
    Below
      [UInt8.ofNat (m / 4096 % 64 + 128), UInt8.ofNat (m / 64 % 64 + 128),
        UInt8.ofNat (m % 64 + 128)]
      [UInt8.ofNat (n / 4096 % 64 + 128), UInt8.ofNat (n / 64 % 64 + 128),
        UInt8.ofNat (n % 64 + 128)] :=
  below_ofNat (by omega) (by omega) fun heq => below_last_two (by omega)

end Digits

theorem below_encode (h : c < d) : Below (String.utf8EncodeChar c) (String.utf8EncodeChar d) := by
  have hlt : c.val.toNat < d.val.toNat := h
  have hd : d.val.toNat < 1114112 := by
    have := d.valid
    rcases this with h | h <;> omega
  unfold String.utf8EncodeChar
  generalize c.val.toNat = m at hlt
  generalize d.val.toNat = n at hlt hd
  dsimp only
  split_ifs
  -- A character of more bytes has the greater first byte.
  all_goals try exact below_ofNat (by omega) (by omega) fun heq => by omega
  -- Characters of equally many bytes have the same first byte, or the lesser one has the lesser
  -- byte.
  · exact below_ofNat (by omega) (by omega) fun heq => below_last (by omega)
  · exact below_ofNat (by omega) (by omega) fun heq => below_last_two (by omega)
  · exact below_ofNat (by omega) (by omega) fun heq => below_last_three (by omega)

theorem encode_ne_nil (c : Char) : String.utf8EncodeChar c ≠ [] := by
  rw [← List.length_pos_iff_ne_nil, String.length_utf8EncodeChar]
  exact c.utf8Size_pos

theorem ofText_eq (x : String) : ofText x = x.toList.flatMap String.utf8EncodeChar := by
  have h (l : List Char) : ofText (String.ofList l) = l.flatMap String.utf8EncodeChar := by
    simp [ofText, String.toUTF8, List.utf8Encode]
  rw [← h, String.ofList_toList]

theorem append_lt_append (x : Bytes) (h : u < v) : x ++ u < x ++ v := by
  induction x with
  | nil => exact h
  | cons a x ih => exact .cons ih

theorem flatMap_lt (h : cs < ds) :
    cs.flatMap String.utf8EncodeChar < ds.flatMap String.utf8EncodeChar := by
  induction h with
  | nil =>
    obtain ⟨a, u, hu⟩ := List.exists_cons_of_ne_nil (encode_ne_nil _)
    rw [List.flatMap_cons, hu]
    exact .nil
  | cons _ ih => exact append_lt_append _ ih
  | rel h => exact ((below_encode h).append _ _).lt

/-- Texts are ordered as their bytes are. -/
theorem ofText_lt (h : s < t) : ofText s < ofText t := by
  rw [ofText_eq, ofText_eq]
  exact flatMap_lt (String.lt_iff_toList_lt.mp h)

theorem flatMap_prefix_iff :
    cs.flatMap String.utf8EncodeChar <+: ds.flatMap String.utf8EncodeChar ↔ cs <+: ds := by
  induction cs generalizing ds with
  | nil => simp
  | cons c cs ih =>
    cases ds with
    | nil => simp
    | cons d ds =>
      rw [List.flatMap_cons, List.flatMap_cons, List.cons_prefix_cons]
      rcases lt_trichotomy c d with h | rfl | h
      · simp [((below_encode h).append _ _).not_prefixed.1, h.ne]
      · rw [List.prefix_append_right_inj, ih]
        simp
      · simp [((below_encode h).append _ _).not_prefixed.2, h.ne']

/-- A text starts as another does just where its bytes do. -/
theorem ofText_prefix_iff : ofText s <+: ofText t ↔ s.toList <+: t.toList := by
  rw [ofText_eq, ofText_eq, flatMap_prefix_iff]

end DescriptorKit.Bytes
