import DescriptorKit.Bytes
import DescriptorKit.Wire.Fault

/-!
Variable-length numbers: seven bits in each byte, lowest first, every byte but the last with its
high bit set. At most ten bytes make a number, and the tenth holds a single bit.

Reading from the front of a byte string. A nested message is read from the same bytes as the message
around it, up to a stated end, so that a record which runs over that end is told apart from one
which runs over the end of all bytes.
-/
namespace DescriptorKit.Wire

namespace Varint

/-- At most `budget` bytes that spell `n`. -/
def encodeWithin : (budget : Nat) → Nat → Bytes
  | 0, _ => []
  | k + 1, n =>
    if n < 128 then [n.toUInt8] else (n % 128 + 128).toUInt8 :: encodeWithin k (n / 128)

def encode (n : Nat) : Bytes := encodeWithin 10 n

/-- The number at the front of the bytes, how many bytes spell it, and the bytes after it. `none`
when it does not end within `budget` bytes, or when the tenth byte holds more than one bit. -/
def decodeWithin : (budget : Nat) → Bytes → Option (Nat × Nat × Bytes)
  | 0, _ => none
  | _ + 1, [] => none
  | k + 1, b :: rest =>
    if b.toNat < 128 then
      if k = 0 ∧ 1 < b.toNat then none else some (b.toNat, 1, rest)
    else (decodeWithin k rest).map fun (n, used, rest) => (b.toNat - 128 + 128 * n, used + 1, rest)

def decode (bytes : Bytes) : Option (Nat × Nat × Bytes) := decodeWithin 10 bytes

end Varint

/-- What is left to read, with its length at hand. -/
structure Cursor where
  bytes : Bytes
  size : Nat

namespace Cursor

def ofBytes (b : Bytes) : Cursor := ⟨b, b.length⟩

def skip (n : Nat) (c : Cursor) : Cursor := ⟨c.bytes.drop n, c.size - n⟩

def readVarint (c : Cursor) : Except Fault (Nat × Cursor) :=
  match Varint.decode c.bytes with
  | none => .error .varint
  | some (n, used, rest) => .ok (n, ⟨rest, c.size - used⟩)

/-- The next `n` bytes. -/
def take (n : Nat) (c : Cursor) : Except Fault (Bytes × Cursor) :=
  if n ≤ c.size then .ok (c.bytes.take n, c.skip n) else .error .underflow

/-- A length and as many bytes. -/
def readDelimited (c : Cursor) : Except Fault (Bytes × Cursor) := do
  let (n, c) ← c.readVarint
  c.take n

/-- A key: the number of a field and how its value is written. -/
def readKey (c : Cursor) : Except Fault (Nat × WireType × Cursor) := do
  let (key, c) ← c.readVarint
  if 0x100000000 ≤ key then .error (.key key)
  else
    match WireType.ofCode? (key % 8) with
    | none => .error (.wireTypeCode (key % 8))
    | some w => if key / 8 = 0 then .error .tagZero else .ok (key / 8, w, c)

/-- Repeats `step` until no more than `stop` bytes are left, at most `fuel` times. Each step must
end no later than that. -/
def repeatUntil {α : Type} (stop : Nat) (step : α → Cursor → Except Failure (α × Cursor)) :
    (fuel : Nat) → α → Cursor → Except Failure (α × Cursor)
  | 0, a, c => if c.size = stop then .ok (a, c) else .error ⟨.lengthExceeded, []⟩
  | fuel + 1, a, c =>
    if stop < c.size then
      match step a c with
      | .ok (a, c) => repeatUntil stop step fuel a c
      | .error f => .error f
    else if c.size = stop then .ok (a, c)
    else .error ⟨.lengthExceeded, []⟩

/-- A length, then `step` until as many bytes are read. Every step reads at least one byte, so the
length bounds their number. -/
def repeatDelimited {α : Type} (step : α → Cursor → Except Failure (α × Cursor)) (a : α)
    (c : Cursor) : Except Failure (α × Cursor) :=
  match c.readVarint with
  | .error f => .error ⟨f, []⟩
  | .ok (n, c) =>
    if n ≤ c.size then repeatUntil (c.size - n) step n a c else .error ⟨.underflow, []⟩

/-- Keys and values up to the end of the group `number`. -/
def repeatGroup {α : Type} (number : Nat)
    (step : α → Nat → WireType → Cursor → Except Failure (α × Cursor)) :
    (fuel : Nat) → α → Cursor → Except Failure (α × Cursor)
  | 0, _, _ => .error ⟨.varint, []⟩
  | fuel + 1, a, c =>
    match c.readKey with
    | .error f => .error ⟨f, []⟩
    | .ok (inner, .endGroup, c) =>
      if inner = number then .ok (a, c) else .error ⟨.endGroup, []⟩
    | .ok (inner, w, c) =>
      match step a inner w c with
      | .ok (a, c) => repeatGroup number step fuel a c
      | .error f => .error f

end Cursor
end DescriptorKit.Wire
