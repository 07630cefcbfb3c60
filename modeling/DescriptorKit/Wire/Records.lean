import DescriptorKit.Wire.Cursor

/-!
The records of an encoded message, found without a schema: splitting those of one field from all
others. Group markers count as records of their own, so what lies between them is walked over one
record at a time and stays in order.
-/
namespace DescriptorKit.Wire.Records

/-- What a record lacks. -/
inductive Detail where
  | noBytes
  | tag
  | wireType (code : Nat)
  | varintValue
  | fixedValue (width : Nat)
  | lengthPrefix
  /-- The length cannot be added to the position at all. -/
  | lengthOutOfRange (length : Nat)
  | tooShort (needed available : Nat)
  deriving DecidableEq, Repr

def Detail.text : Detail → String
  | .noBytes => "empty data"
  | .tag => "failed to decode field tag"
  | .wireType code => "unknown wire type: " ++ toString code
  | .varintValue => "failed to decode varint value"
  | .fixedValue width => "not enough bytes for " ++ toString width ++ "-byte fixed field"
  | .lengthPrefix => "failed to decode length prefix"
  | .lengthOutOfRange length => "LEN prefix " ++ toString length ++ " out of range"
  | .tooShort needed available =>
    "not enough bytes for LEN field (need " ++ toString needed ++ ", have "
      ++ toString available ++ ")"

inductive Fault where
  | malformed (offset : Nat) (detail : Detail)
  | fieldNumber (number : Nat)
  deriving DecidableEq, Repr

/-- The greatest number a field may have. -/
def maxFieldNumber : Nat := 0x1fffffff

def Fault.text : Fault → String
  | .malformed offset detail =>
    "invalid protobuf wire format at offset " ++ toString offset ++ ": " ++ detail.text
  | .fieldNumber number =>
    "invalid field number " ++ toString number ++ ": must be between 1 and "
      ++ toString maxFieldNumber

/-- The sum of the seven-bit digits at the front of the bytes, and how many bytes hold them. -/
def digits : (budget : Nat) → Bytes → Option (Nat × Nat)
  | 0, _ => none
  | _ + 1, [] => none
  | k + 1, b :: rest =>
    if b.toNat < 128 then some (b.toNat, 1)
    else (digits k rest).map fun (n, used) => (b.toNat - 128 + 128 * n, used + 1)

/-- A number of at most ten bytes, of which 64 bits are kept, and its length. -/
def varint (bytes : Bytes) : Option (Nat × Nat) :=
  (digits 10 bytes).map fun (n, used) => (n % 0x10000000000000000, used)

/-- The length of the value that follows a key of `tagLength` bytes at the front of `data`, which
holds `size` bytes. -/
def valueLength (offset size tagLength : Nat) (w : WireType) (data : Bytes) :
    Except Fault Nat :=
  let position := offset + tagLength
  let fixed (width : Nat) : Except Fault Nat :=
    if size < tagLength + width then .error (.malformed position (.fixedValue width))
    else .ok width
  match w with
  | .varint =>
    match varint (data.drop tagLength) with
    | none => .error (.malformed position .varintValue)
    | some (_, used) => .ok used
  | .fixed64 => fixed 8
  | .delimited =>
    match varint (data.drop tagLength) with
    | none => .error (.malformed position .lengthPrefix)
    | some (length, used) =>
      if 0x10000000000000000 ≤ length + used + tagLength then
        .error (.malformed position (.lengthOutOfRange length))
      else if size < tagLength + (length + used) then
        .error (.malformed position (.tooShort length (size - tagLength - used)))
      else .ok (length + used)
  | .startGroup => .ok 0
  | .endGroup => .ok 0
  | .fixed32 => fixed 4

/-- The field number and the length of the record at the front of `data`, which holds `size` bytes
and starts at `offset`. Of the number in the key, 32 bits are kept. -/
def measure (offset size : Nat) (data : Bytes) : Except Fault (Nat × Nat) :=
  if data = [] then .error (.malformed offset .noBytes)
  else
    match varint data with
    | none => .error (.malformed offset .tag)
    | some (tag, tagLength) =>
      match WireType.ofCode? (tag % 8) with
      | none => .error (.malformed 0 (.wireType (tag % 8)))
      | some w =>
        let number := tag / 8 % 0x100000000
        if number = 0 ∨ maxFieldNumber < number then .error (.fieldNumber number)
        else
          match valueLength offset size tagLength w data with
          | .ok n => .ok (number, tagLength + n)
          | .error f => .error f

/-- Every record takes at least one byte, so their number is at most `fuel`, the length of what is
left. -/
def splitFrom (number : Nat) : (fuel : Nat) → Nat → Cursor → Except Fault (Bytes × Bytes)
  | 0, _, _ => .ok ([], [])
  | fuel + 1, offset, c =>
    if c.size = 0 then .ok ([], [])
    else
      match measure offset c.size c.bytes with
      | .error f => .error f
      | .ok (found, length) =>
        match splitFrom number fuel (offset + length) (c.skip length) with
        | .error f => .error f
        | .ok (rest, extracted) =>
          let record := c.bytes.take length
          if found = number then .ok (rest, record ++ extracted)
          else .ok (record ++ rest, extracted)

/-- The records of all other fields, and the records of field `number`, both in order. -/
def split (number : Nat) (data : Bytes) : Except Fault (Bytes × Bytes) :=
  splitFrom number data.length 0 (.ofBytes data)

end DescriptorKit.Wire.Records
