import DescriptorKit.Message.Basic
import DescriptorKit.Message.Encode
import DescriptorKit.Text.Format.Node

/-!
Messages of a type that text writes. A field that is not repeated is written once, and one member of
a oneof at most.
-/
namespace DescriptorKit.Text.Format

namespace Atom

/-- The scalar value of a kind that is written. An integer for a floating-point number is written in
base ten; kinds without signs take no minus, not even at a zero. -/
def scalar? (k : ScalarKind) (a : Atom) : Option Scalar :=
  match k, a with
  | .double, .number negative (.int 10 n) =>
    some (.double (Literal.doubleBits negative (Float.ofNat n)))
  | .double, .number negative (.float x) => some (.double (Literal.doubleBits negative x))
  | .double, .word negative s =>
    (Literal.named? s.toList).map fun x => .double (Literal.doubleBits negative x)
  | .double, _ => none
  | .float, .number negative (.int 10 n) =>
    some (.float (Literal.floatBits negative (Float.ofNat n)))
  | .float, .number negative (.float x) => some (.float (Literal.floatBits negative x))
  | .float, .word negative s =>
    (Literal.named? s.toList).map fun x => .float (Literal.floatBits negative x)
  | .float, _ => none
  | .bool, .number false (.int _ n) => if n < 2 then some (.bool (n = 1)) else none
  | .bool, .word false s =>
    if s = "true" ∨ s = "True" ∨ s = "t" then some (.bool true)
    else if s = "false" ∨ s = "False" ∨ s = "f" then some (.bool false)
    else none
  | .bytes, .bytes b => some (.bytes b)
  | .string, .bytes b => (Bytes.text? b).map .string
  | k, .number negative (.int _ n) =>
    if negative && !k.isSigned then none else k.ofInt? (if negative then -(n : Int) else n)
  | _, _ => none

/-- The number of the enum value that is written. -/
def enum? (e : EnumType) (a : Atom) : Option Int32 :=
  match a with
  | .word false s => (e.values.find? (·.1 = s)).map (·.2)
  | a =>
    match a.scalar? .int32 with
    | some (.int32 n) => some n
    | _ => none

/-- The value of a field that is written. -/
def value? (S : Schema) (f : Field) (a : Atom) : Option Value :=
  match f.kind with
  | .scalar k => (a.scalar? k).map .scalar
  | .enum type => ((S.enum? type).bind a.enum?).map fun n => .scalar (.enum n)
  | _ => none

end Atom

/-- The name of the type of a group, by which the field goes. -/
def groupName? (S : Schema) (f : Field) : Option String :=
  match f.kind with
  | .group type => (S.message? type).map (·.shortName)
  | _ => none

/-- The field of a message type that a name stands for. -/
def NodeName.field? (S : Schema) (t : MessageType) : NodeName → Option Field
  | .plain s =>
    t.fields.find? (fun f => f.name = s && (groupName? S f).isNone) <|>
      t.fields.find? fun f => groupName? S f = some s
  | .extension name =>
    (S.extensionNamed? name).bind fun e => if e.extendee = t.name then some e.field else none
  | .address _ _ => none

/-- Sets a field to what is written, unless something stands in the way. -/
def put? (S : Schema) (f : Field) (v : Value) (m : Message) : Option Message :=
  if f.repeated then some (m.add S f v)
  else if (m.get? f).isSome || m.any (·.rivals f) then none
  else some (m.set f v)

/-- A message of any type, told by its address. -/
def packed? (t : MessageType) (address : String) (m : Message) : Option Message :=
  match decide (t.name = "google.protobuf.Any"), t.fieldNumbered? 1, t.fieldNumbered? 2 with
  | true, some type, some value =>
    some (Message.set value (.scalar (.bytes m.encode))
      (Message.set type (.scalar (.string address)) []))
  | _, _, _ => none

mutual

def Node.value? (S : Schema) (f : Field) : Node → Option Value
  | .atom a => a.value? S f
  | .message fs =>
    match S.messageOf? f with
    | some t => (NodeField.message? S t [] fs).map .message
    | none => none

/-- Adds the values to a repeated field. -/
def Node.addAll? (S : Schema) (f : Field) (m : Message) : List Node → Option Message
  | [] => some m
  | v :: rest =>
    match Node.value? S f v with
    | some v => Node.addAll? S f (m.add S f v) rest
    | none => none

/-- Sets what is written in the fields of a message. -/
def NodeField.message? (S : Schema) (t : MessageType) (m : Message) :
    List NodeField → Option Message
  | [] => some m
  | .one (.address host type) (.message fs) :: rest =>
    match S.message? type with
    | none => none
    | some inner =>
      match NodeField.message? S inner [] fs with
      | none => none
      | some v =>
        match packed? t (host ++ "/" ++ type) v with
        | some m => NodeField.message? S t m rest
        | none => none
  | .one name v :: rest =>
    match name.field? S t with
    | none => none
    | some f =>
      match Node.value? S f v with
      | none => none
      | some v =>
        match put? S f v m with
        | some m => NodeField.message? S t m rest
        | none => none
  | .list name vs :: rest =>
    match name.field? S t with
    | none => none
    | some f =>
      if f.repeated then
        match Node.addAll? S f m vs with
        | some m => NodeField.message? S t m rest
        | none => none
      else none

end

/-- The message of a type that a text spells. -/
def message? (S : Schema) (t : MessageType) (text : String) : Option Message :=
  (Node.ofText? text).bind (NodeField.message? S t [])

end DescriptorKit.Text.Format
