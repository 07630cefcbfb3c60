import DescriptorKit.Bundled.Descriptor

/-!
The messages that describe declarations.
-/
namespace DescriptorKit

def Label.code : Label → Int32
  | .optional => 1
  | .required => 2
  | .repeated => 3

def FieldType.code : FieldType → Int32
  | .scalar .double => 1
  | .scalar .float => 2
  | .scalar .int64 => 3
  | .scalar .uint64 => 4
  | .scalar .int32 => 5
  | .scalar .fixed64 => 6
  | .scalar .fixed32 => 7
  | .scalar .bool => 8
  | .scalar .string => 9
  | .group => 10
  | .message => 11
  | .scalar .bytes => 12
  | .scalar .uint32 => 13
  | .enum => 14
  | .scalar .sfixed32 => 15
  | .scalar .sfixed64 => 16
  | .scalar .sint32 => 17
  | .scalar .sint64 => 18

/-- Builds messages of one type field by field, in any order. -/
structure Draft where
  type : MessageType
  slots : Message := []

namespace Draft

/-- An empty message of a type of the descriptor schema. -/
def of (type : String) : Draft :=
  let type? := Bundled.descriptorSchema.message? ("google.protobuf." ++ type)
  { type := type?.getD ⟨type, [], false⟩ }

def put (d : Draft) (number : Nat) (v : Value) : Draft :=
  match d.type.fieldNumbered? number with
  | some f => { d with slots := Message.set f v d.slots }
  | none => d

def text (d : Draft) (number : Nat) (s : String) : Draft := d.put number (.scalar (.string s))

def text? (d : Draft) (number : Nat) (s : Option String) : Draft :=
  s.elim d (d.text number)

def int (d : Draft) (number : Nat) (n : Int32) : Draft := d.put number (.scalar (.int32 n))

def int? (d : Draft) (number : Nat) (n : Option Int32) : Draft := n.elim d (d.int number)

def enum (d : Draft) (number : Nat) (n : Int32) : Draft := d.put number (.scalar (.enum n))

def flag? (d : Draft) (number : Nat) (b : Option Bool) : Draft :=
  b.elim d fun b => d.put number (.scalar (.bool b))

def message? (d : Draft) (number : Nat) (m : Option Message) : Draft :=
  m.elim d fun m => d.put number (.message m)

def many (d : Draft) (number : Nat) (vs : List Value) : Draft := d.put number (.many vs)

def texts (d : Draft) (number : Nat) (ss : List String) : Draft :=
  d.many number (ss.map fun s => .scalar (.string s))

def ints (d : Draft) (number : Nat) (ns : List Int32) : Draft :=
  d.many number (ns.map fun n => .scalar (.int32 n))

def messages (d : Draft) (number : Nat) (ms : List Message) : Draft :=
  d.many number (ms.map .message)

end Draft

def FieldDecl.toMessage (d : FieldDecl) : Message :=
  ((((Draft.of "FieldDescriptorProto").text 1 d.name).int 3 d.number).enum 4 d.label.code
    |> fun m => d.type.elim m fun t => m.enum 5 t.code)
    |>.text? 6 d.typeName
    |>.text? 2 d.extendee
    |>.text? 7 d.defaultValue
    |>.int? 9 d.oneofIndex
    |>.text? 10 d.jsonName
    |>.message? 8 d.options
    |>.flag? 17 (if d.explicitOptional then some true else none)
    |>.slots

def OneofDecl.toMessage (d : OneofDecl) : Message :=
  ((Draft.of "OneofDescriptorProto").text 1 d.name |>.message? 2 d.options).slots

def EnumValueDecl.toMessage (d : EnumValueDecl) : Message :=
  ((Draft.of "EnumValueDescriptorProto").text 1 d.name
    |>.int 2 d.number |>.message? 3 d.options).slots

/-- A range as a message of the given type. -/
def RangeDecl.toMessage (type : String) (d : RangeDecl) : Message :=
  ((Draft.of type).int 1 d.start |>.int 2 d.stop |>.message? 3 d.options).slots

def EnumDecl.toMessage (d : EnumDecl) : Message :=
  ((Draft.of "EnumDescriptorProto").text 1 d.name
    |>.messages 2 (d.values.map EnumValueDecl.toMessage)
    |>.message? 3 d.options
    |>.messages 4
      (d.reservedRanges.map (RangeDecl.toMessage "EnumDescriptorProto.EnumReservedRange"))
    |>.texts 5 d.reservedNames).slots

def MethodDecl.toMessage (d : MethodDecl) : Message :=
  ((Draft.of "MethodDescriptorProto").text 1 d.name
    |>.text 2 d.input
    |>.text 3 d.output
    |>.message? 4 d.options
    |>.flag? 5 d.clientStreaming
    |>.flag? 6 d.serverStreaming).slots

def ServiceDecl.toMessage (d : ServiceDecl) : Message :=
  ((Draft.of "ServiceDescriptorProto").text 1 d.name
    |>.messages 2 (d.methods.map MethodDecl.toMessage)
    |>.message? 3 d.options).slots

namespace MessageDecl

mutual

def toMessage : MessageDecl → Message
  | ⟨name, fields, nested, enums, extensionRanges, extensions, options, oneofs, reservedRanges,
      reservedNames⟩ =>
    ((Draft.of "DescriptorProto").text 1 name
      |>.messages 2 (fields.map FieldDecl.toMessage)
      |>.messages 3 (toMessages nested)
      |>.messages 4 (enums.map EnumDecl.toMessage)
      |>.messages 5
        (extensionRanges.map (RangeDecl.toMessage "DescriptorProto.ExtensionRange"))
      |>.messages 6 (extensions.map FieldDecl.toMessage)
      |>.message? 7 options
      |>.messages 8 (oneofs.map OneofDecl.toMessage)
      |>.messages 9
        (reservedRanges.map (RangeDecl.toMessage "DescriptorProto.ReservedRange"))
      |>.texts 10 reservedNames).slots

def toMessages : List MessageDecl → List Message
  | [] => []
  | m :: rest => toMessage m :: toMessages rest

end

end MessageDecl

def Location.toMessage (d : Location) : Message :=
  ((Draft.of "SourceCodeInfo.Location").ints 1 d.path
    |>.ints 2 d.span
    |>.text? 3 d.leading
    |>.text? 4 d.trailing
    |>.texts 6 d.detached).slots

def FileDecl.toMessage (d : FileDecl) : Message :=
  ((Draft.of "FileDescriptorProto").text 1 d.name
    |>.text? 2 d.package
    |>.texts 3 d.dependencies
    |>.ints 10 d.publicDependencies
    |>.ints 11 d.weakDependencies
    |>.messages 4 (d.messages.map MessageDecl.toMessage)
    |>.messages 5 (d.enums.map EnumDecl.toMessage)
    |>.messages 6 (d.services.map ServiceDecl.toMessage)
    |>.messages 7 (d.extensions.map FieldDecl.toMessage)
    |>.message? 8 d.options
    |>.message? 9 (d.locations.map fun ls =>
      ((Draft.of "SourceCodeInfo").messages 1 (ls.map Location.toMessage)).slots)
    |>.text? 12 d.dialect).slots

end DescriptorKit
