/-!
Sets of characters given by ranges of code points, and among them the white space of all scripts.
-/
namespace DescriptorKit.Text

/-- Whether a code point lies in one of the ranges; both ends belong to a range. -/
def inRanges (ranges : List (Nat × Nat)) (n : Nat) : Bool :=
  ranges.any fun (first, last) => first ≤ n && n ≤ last

/-- Characters with the property White_Space. -/
def blankRanges : List (Nat × Nat) := [
  (0x9, 0xd), (0x20, 0x20), (0x85, 0x85), (0xa0, 0xa0), (0x1680, 0x1680), (0x2000, 0x200a),
  (0x2028, 0x2029), (0x202f, 0x202f), (0x205f, 0x205f), (0x3000, 0x3000)]

def isBlank (c : Char) : Bool := inRanges blankRanges c.toNat

end DescriptorKit.Text
