import DescriptorKit.Wire.Payload

/-!
Scalar values: their kinds, how each is written, and how it is read back.
-/
namespace DescriptorKit

/-- The kinds of scalar field a message can declare. -/
inductive ScalarKind where
  | double
  | float
  | int64
  | uint64
  | int32
  | fixed64
  | fixed32
  | bool
  | string
  | bytes
  | uint32
  | sfixed32
  | sfixed64
  | sint32
  | sint64
  deriving DecidableEq, Repr

/-- A scalar value. Floating-point numbers are given by their bits. -/
inductive Scalar where
  | double (bits : UInt64)
  | float (bits : UInt32)
  | int64 (n : Int64)
  | uint64 (n : UInt64)
  | int32 (n : Int32)
  | uint32 (n : UInt32)
  | bool (b : Bool)
  | string (s : String)
  | bytes (b : Bytes)
  /-- Any number is allowed for an enum, declared or not. -/
  | enum (n : Int32)
  deriving DecidableEq

namespace ScalarKind
open Wire

def name : ScalarKind → String
  | .double => "double"
  | .float => "float"
  | .int64 => "int64"
  | .uint64 => "uint64"
  | .int32 => "int32"
  | .fixed64 => "fixed64"
  | .fixed32 => "fixed32"
  | .bool => "bool"
  | .string => "string"
  | .bytes => "bytes"
  | .uint32 => "uint32"
  | .sfixed32 => "sfixed32"
  | .sfixed64 => "sfixed64"
  | .sint32 => "sint32"
  | .sint64 => "sint64"

def wireType : ScalarKind → WireType
  | .double | .fixed64 | .sfixed64 => .fixed64
  | .float | .fixed32 | .sfixed32 => .fixed32
  | .string | .bytes => .delimited
  | _ => .varint

/-- Whether many values can share one record. -/
def packable : ScalarKind → Bool
  | .string | .bytes => false
  | _ => true

/-- Whether the kind is one of integers that may be below zero. -/
def isSigned : ScalarKind → Bool
  | .int32 | .sint32 | .sfixed32 | .int64 | .sint64 | .sfixed64 => true
  | _ => false

/-- What an unset field of the kind holds, unless it declares otherwise. -/
def zero : ScalarKind → Scalar
  | .double => .double 0
  | .float => .float 0
  | .int64 | .sint64 | .sfixed64 => .int64 0
  | .uint64 | .fixed64 => .uint64 0
  | .int32 | .sint32 | .sfixed32 => .int32 0
  | .uint32 | .fixed32 => .uint32 0
  | .bool => .bool false
  | .string => .string ""
  | .bytes => .bytes []

/-- An integer in the range of an integer kind. -/
def ofInt? (k : ScalarKind) (n : Int) : Option Scalar :=
  let within (low high : Int) (s : Scalar) : Option Scalar :=
    if low ≤ n ∧ n < high then some s else none
  match k with
  | .int32 | .sint32 | .sfixed32 => within (-0x80000000) 0x80000000 (.int32 (Int32.ofInt n))
  | .int64 | .sint64 | .sfixed64 =>
    within (-0x8000000000000000) 0x8000000000000000 (.int64 (Int64.ofInt n))
  | .uint32 | .fixed32 => within 0 0x100000000 (.uint32 n.toNat.toUInt32)
  | .uint64 | .fixed64 => within 0 0x10000000000000000 (.uint64 n.toNat.toUInt64)
  | _ => none

end ScalarKind

namespace Scalar
open Wire

/-- Whether the value is one that a field without presence never writes. Both zeros count. -/
def isZero : Scalar → Bool
  | .double b => b = 0 || b = 0x8000000000000000
  | .float b => b = 0 || b = 0x80000000
  | .int64 n => n = 0
  | .uint64 n => n = 0
  | .int32 n => n = 0
  | .uint32 n => n = 0
  | .bool b => !b
  | .string s => s = ""
  | .bytes b => b.isEmpty
  | .enum n => n = 0

/-- Signed numbers are sent to unsigned ones in the order 0, -1, 1, -2, … -/
def zigzag (n : Int) : Nat := if n < 0 then (-2 * n - 1).toNat else (2 * n).toNat

def unzigzag (n : Nat) : Int := if n % 2 = 0 then n / 2 else -((n : Int) / 2) - 1

/-- A signed number as the 64-bit pattern that a plain varint writes. -/
def pattern64 (n : Int) : Nat := (n % 0x10000000000000000).toNat

/-- The bytes of a value without its key, as a field of the given kind writes them. -/
def encode (k : ScalarKind) : Scalar → Bytes
  | .double b => Bytes.littleEndian 8 b.toNat
  | .float b => Bytes.littleEndian 4 b.toNat
  | .int64 n =>
    match k with
    | .sint64 => Varint.encode (zigzag n.toInt)
    | .sfixed64 => Bytes.littleEndian 8 n.toUInt64.toNat
    | _ => Varint.encode (pattern64 n.toInt)
  | .uint64 n => if k = .fixed64 then Bytes.littleEndian 8 n.toNat else Varint.encode n.toNat
  | .int32 n =>
    match k with
    | .sint32 => Varint.encode (zigzag n.toInt)
    | .sfixed32 => Bytes.littleEndian 4 n.toUInt32.toNat
    | _ => Varint.encode (pattern64 n.toInt)
  | .uint32 n => if k = .fixed32 then Bytes.littleEndian 4 n.toNat else Varint.encode n.toNat
  | .bool b => Varint.encode b.toNat
  | .string s => encodeDelimited (Bytes.ofText s)
  | .bytes b => encodeDelimited b
  | .enum n => Varint.encode (pattern64 n.toInt)

/-- Reads a value that is not an enum. Numbers too large for the kind lose their high bits. -/
def read (k : ScalarKind) (c : Cursor) : Except Fault (Scalar × Cursor) :=
  let varint (f : Nat → Scalar) : Except Fault (Scalar × Cursor) := do
    let (n, c) ← c.readVarint
    .ok (f n, c)
  let fixed (width : Nat) (f : Nat → Scalar) : Except Fault (Scalar × Cursor) := do
    let (b, c) ← c.take width
    .ok (f (Bytes.ofLittleEndian b), c)
  match k with
  | .double => fixed 8 fun n => .double n.toUInt64
  | .float => fixed 4 fun n => .float n.toUInt32
  | .int64 => varint fun n => .int64 (Int64.ofNat n)
  | .uint64 => varint fun n => .uint64 n.toUInt64
  | .int32 => varint fun n => .int32 (Int32.ofNat n)
  | .fixed64 => fixed 8 fun n => .uint64 n.toUInt64
  | .fixed32 => fixed 4 fun n => .uint32 n.toUInt32
  | .bool => varint fun n => .bool (n ≠ 0)
  | .string => do
    let (b, c) ← c.readDelimited
    match Bytes.text? b with
    | some s => .ok (.string s, c)
    | none => .error .notText
  | .bytes => do
    let (b, c) ← c.readDelimited
    .ok (.bytes b, c)
  | .uint32 => varint fun n => .uint32 n.toUInt32
  | .sfixed32 => fixed 4 fun n => .int32 (Int32.ofNat n)
  | .sfixed64 => fixed 8 fun n => .int64 (Int64.ofNat n)
  | .sint32 => varint fun n => .int32 (Int32.ofInt (unzigzag (n % 0x100000000)))
  | .sint64 => varint fun n => .int64 (Int64.ofInt (unzigzag n))

/-- Reads the number of an enum. -/
def readEnum (c : Cursor) : Except Fault (Scalar × Cursor) := do
  let (n, c) ← c.readVarint
  .ok (.enum (Int32.ofNat n), c)

end Scalar
end DescriptorKit
