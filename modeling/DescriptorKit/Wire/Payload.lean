import DescriptorKit.Wire.Cursor

/-!
Records whose field no schema declares: kept as they were written, and written again in the same
form.
-/
namespace DescriptorKit.Wire

/-- The value of a record without a declared field. -/
inductive Payload where
  | varint (value : UInt64)
  | fixed64 (value : UInt64)
  | delimited (value : Bytes)
  | group (records : List (Nat × Payload))
  | fixed32 (value : UInt32)

/-- The key in front of a value. -/
def encodeKey (number : Nat) (w : WireType) : Bytes := Varint.encode (8 * number + w.code)

/-- Bytes with their length in front. -/
def encodeDelimited (b : Bytes) : Bytes := Varint.encode b.length ++ b

namespace Payload

mutual
/-- The record of field `number` that holds the value. -/
def encode (number : Nat) : Payload → Bytes
  | .varint v => encodeKey number .varint ++ Varint.encode v.toNat
  | .fixed64 v => encodeKey number .fixed64 ++ Bytes.littleEndian 8 v.toNat
  | .delimited b => encodeKey number .delimited ++ encodeDelimited b
  | .group records =>
    encodeKey number .startGroup ++ encodeAll records ++ encodeKey number .endGroup
  | .fixed32 v => encodeKey number .fixed32 ++ Bytes.littleEndian 4 v.toNat

def encodeAll : List (Nat × Payload) → Bytes
  | [] => []
  | (number, p) :: rest => encode number p ++ encodeAll rest
end

/-- Reads the value of a field that is not a group. -/
def readFlat (w : WireType) (c : Cursor) : Except Fault (Payload × Cursor) :=
  match w with
  | .varint => do
    let (n, c) ← c.readVarint
    .ok (.varint n.toUInt64, c)
  | .fixed64 => do
    let (b, c) ← c.take 8
    .ok (.fixed64 (Bytes.ofLittleEndian b).toUInt64, c)
  | .delimited => do
    let (b, c) ← c.readDelimited
    .ok (.delimited b, c)
  | .fixed32 => do
    let (b, c) ← c.take 4
    .ok (.fixed32 (Bytes.ofLittleEndian b).toUInt32, c)
  | _ => .error .endGroup

/-- Reads one more record by `read` and puts it in front of those already read. -/
def readInto (read : Nat → WireType → Cursor → Except Failure (Payload × Cursor))
    (records : List (Nat × Payload)) (number : Nat) (w : WireType) (c : Cursor) :
    Except Failure (List (Nat × Payload) × Cursor) :=
  match read number w c with
  | .ok (p, c) => .ok ((number, p) :: records, c)
  | .error f => .error f

/-- Reads the value of a field, groups in it nested at most `depth` deep. A `strict` reader also
refuses any other field that lies that deep. -/
def read (strict : Bool) :
    (depth : Nat) → Nat → WireType → Cursor → Except Failure (Payload × Cursor)
  | 0, _, w, c =>
    if strict || w = .startGroup then .error ⟨.tooDeep, []⟩
    else
      match readFlat w c with
      | .ok r => .ok r
      | .error f => .error ⟨f, []⟩
  | depth + 1, number, w, c =>
    if w = .startGroup then
      match c.repeatGroup number (readInto (read strict depth)) (c.size + 1) [] with
      | .ok (records, c) => .ok (.group records.reverse, c)
      | .error f => .error f
    else
      match readFlat w c with
      | .ok r => .ok r
      | .error f => .error ⟨f, []⟩

end Payload
end DescriptorKit.Wire
