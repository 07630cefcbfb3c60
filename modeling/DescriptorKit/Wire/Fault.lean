/-!
Why an encoded message cannot be read, and where in it the reader stood.
-/
namespace DescriptorKit.Wire

inductive WireType where
  | varint
  | fixed64
  | delimited
  | startGroup
  | endGroup
  | fixed32
  deriving DecidableEq, Repr

namespace WireType

def code : WireType → Nat
  | .varint => 0
  | .fixed64 => 1
  | .delimited => 2
  | .startGroup => 3
  | .endGroup => 4
  | .fixed32 => 5

def ofCode? : Nat → Option WireType
  | 0 => some .varint
  | 1 => some .fixed64
  | 2 => some .delimited
  | 3 => some .startGroup
  | 4 => some .endGroup
  | 5 => some .fixed32
  | _ => none

def text : WireType → String
  | .varint => "Varint"
  | .fixed64 => "SixtyFourBit"
  | .delimited => "LengthDelimited"
  | .startGroup => "StartGroup"
  | .endGroup => "EndGroup"
  | .fixed32 => "ThirtyTwoBit"

theorem ofCode?_code (w : WireType) : ofCode? w.code = some w := by cases w <;> rfl

end WireType

inductive Fault where
  | varint
  /-- A key must fit into 32 bits. -/
  | key (value : Nat)
  | wireTypeCode (code : Nat)
  | tagZero
  /-- A length reaches beyond the end of the bytes. -/
  | underflow
  /-- The last record of a nested message reaches beyond that message. -/
  | lengthExceeded
  | endGroup
  | wireType (found expected : WireType)
  | notText
  /-- Messages are nested too deeply. -/
  | tooDeep
  deriving DecidableEq, Repr

def Fault.text : Fault → String
  | .varint => "invalid varint"
  | .key value => "invalid key value: " ++ toString value
  | .wireTypeCode code => "invalid wire type value: " ++ toString code
  | .tagZero => "invalid tag value: 0"
  | .underflow => "buffer underflow"
  | .lengthExceeded => "delimited length exceeded"
  | .endGroup => "unexpected end group tag"
  | .wireType found expected =>
    "invalid wire type: " ++ found.text ++ " (expected " ++ expected.text ++ ")"
  | .notText => "invalid string value: data is not UTF-8 encoded"
  | .tooDeep => "recursion limit reached"

/-- A fault with the fields it lies in, the innermost first. -/
structure Failure where
  fault : Fault
  trace : List (String × String) := []
  deriving DecidableEq, Repr

namespace Failure

/-- The failure as seen from the field `name` of a message `owner` that holds its place. -/
def within (owner name : String) (f : Failure) : Failure :=
  { f with trace := f.trace ++ [(owner, name)] }

def text (f : Failure) : String :=
  "failed to decode Protobuf message: "
    ++ String.join (f.trace.map fun (owner, name) => owner ++ "." ++ name ++ ": ")
    ++ f.fault.text

end Failure
end DescriptorKit.Wire
