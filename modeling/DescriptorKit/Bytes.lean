/-!
Byte strings as lists, with text and fixed-width words read from and written to them.
-/
namespace DescriptorKit

abbrev Bytes := List UInt8

namespace Bytes

/-- The UTF-8 form of a text. -/
def ofText (s : String) : Bytes := s.toUTF8.data.toList

/-- The text that the bytes are the UTF-8 form of, if they are well-formed. -/
def text? (b : Bytes) : Option String := String.fromUTF8? ⟨b.toArray⟩

theorem text?_ofText (s : String) : text? (ofText s) = some s := by
  have h : (⟨(ofText s).toArray⟩ : ByteArray) = s.toUTF8 := rfl
  have v : s.toUTF8.IsValidUTF8 := s.isValidUTF8
  rw [text?, h, String.fromUTF8?, dif_pos v]
  rfl

/-- The `width` lowest bytes of a number, lowest first. -/
def littleEndian : (width : Nat) → Nat → Bytes
  | 0, _ => []
  | w + 1, n => (n % 256).toUInt8 :: littleEndian w (n / 256)

/-- The number whose bytes, lowest first, are given. -/
def ofLittleEndian : Bytes → Nat
  | [] => 0
  | b :: r => b.toNat + 256 * ofLittleEndian r

@[simp] theorem length_littleEndian (w n : Nat) : (littleEndian w n).length = w := by
  induction w generalizing n with
  | zero => rfl
  | succ w ih => simp [littleEndian, ih]

theorem ofLittleEndian_littleEndian (w n : Nat) :
    ofLittleEndian (littleEndian w n) = n % Nat.pow 256 w := by
  induction w generalizing n with
  | zero => simp [littleEndian, ofLittleEndian, Nat.mod_one]
  | succ w ih =>
    have h : ((n % 256).toUInt8).toNat = n % 256 := by
      simp [Nat.toUInt8]
    rw [littleEndian, ofLittleEndian, ih, h, Nat.pow_eq, Nat.pow_eq, Nat.pow_succ', Nat.mod_mul]

end Bytes
end DescriptorKit
