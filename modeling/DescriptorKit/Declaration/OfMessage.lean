import DescriptorKit.Declaration.Basic
import DescriptorKit.Message.Basic

/-!
Declarations read from the messages that describe them. What is not set has the default of its
field; numbers of enums that are not known count as not set.
-/
namespace DescriptorKit

def Label.ofCode? : Nat → Option Label
  | 1 => some .optional
  | 2 => some .required
  | 3 => some .repeated
  | _ => none

def FieldType.ofCode? : Nat → Option FieldType
  | 1 => some (.scalar .double)
  | 2 => some (.scalar .float)
  | 3 => some (.scalar .int64)
  | 4 => some (.scalar .uint64)
  | 5 => some (.scalar .int32)
  | 6 => some (.scalar .fixed64)
  | 7 => some (.scalar .fixed32)
  | 8 => some (.scalar .bool)
  | 9 => some (.scalar .string)
  | 10 => some .group
  | 11 => some .message
  | 12 => some (.scalar .bytes)
  | 13 => some (.scalar .uint32)
  | 14 => some .enum
  | 15 => some (.scalar .sfixed32)
  | 16 => some (.scalar .sfixed64)
  | 17 => some (.scalar .sint32)
  | 18 => some (.scalar .sint64)
  | _ => none

/-- The text of a field, empty when it is not set. -/
def Message.textAt (number : Nat) (m : Message) : String := (m.textAt? number).getD ""

def Message.intAt (number : Nat) (m : Message) : Int32 := (m.intAt? number).getD 0

def FieldDecl.ofMessage (m : Message) : FieldDecl :=
  { name := m.textAt 1
    number := m.intAt 3
    label := ((m.intAt? 4).bind fun n => Label.ofCode? n.toInt.toNat).getD .optional
    type := (m.intAt? 5).bind fun n => FieldType.ofCode? n.toInt.toNat
    typeName := m.textAt? 6
    extendee := m.textAt? 2
    defaultValue := m.textAt? 7
    oneofIndex := m.intAt? 9
    jsonName := m.textAt? 10
    explicitOptional := (m.boolAt? 17).getD false
    options := m.messageAt? 8 }

def OneofDecl.ofMessage (m : Message) : OneofDecl :=
  { name := m.textAt 1, options := m.messageAt? 2 }

def EnumValueDecl.ofMessage (m : Message) : EnumValueDecl :=
  { name := m.textAt 1, number := m.intAt 2, options := m.messageAt? 3 }

/-- Ranges of every kind have their bounds and their options under the same numbers. -/
def RangeDecl.ofMessage (m : Message) : RangeDecl :=
  { start := m.intAt 1, stop := m.intAt 2, options := m.messageAt? 3 }

def EnumDecl.ofMessage (m : Message) : EnumDecl :=
  { name := m.textAt 1
    values := (m.messagesAt 2).map EnumValueDecl.ofMessage
    options := m.messageAt? 3
    reservedRanges := (m.messagesAt 4).map RangeDecl.ofMessage
    reservedNames := m.textsAt 5 }

def MethodDecl.ofMessage (m : Message) : MethodDecl :=
  { name := m.textAt 1
    input := m.textAt 2
    output := m.textAt 3
    options := m.messageAt? 4
    clientStreaming := m.boolAt? 5
    serverStreaming := m.boolAt? 6 }

def ServiceDecl.ofMessage (m : Message) : ServiceDecl :=
  { name := m.textAt 1
    methods := (m.messagesAt 2).map MethodDecl.ofMessage
    options := m.messageAt? 3 }

namespace MessageDecl

/-- What a message declares besides the messages nested in it. -/
def ofFlat (m : Message) (nested : List MessageDecl) : MessageDecl :=
  { name := m.textAt 1
    fields := (m.messagesAt 2).map FieldDecl.ofMessage
    nested
    enums := (m.messagesAt 4).map EnumDecl.ofMessage
    extensionRanges := (m.messagesAt 5).map RangeDecl.ofMessage
    extensions := (m.messagesAt 6).map FieldDecl.ofMessage
    options := m.messageAt? 7
    oneofs := (m.messagesAt 8).map OneofDecl.ofMessage
    reservedRanges := (m.messagesAt 9).map RangeDecl.ofMessage
    reservedNames := m.textsAt 10 }

mutual

/-- The message that a value describes, if it is a message at all. -/
def ofValue? : Value → Option MessageDecl
  | .message slots => some (ofFlat slots (nestedOf slots))
  | _ => none

def nestedOf : List Slot → List MessageDecl
  | [] => []
  | .known f (.many vs) :: rest =>
    if f.number = 3 && !f.isExtension then ofValues vs else nestedOf rest
  | _ :: rest => nestedOf rest

def ofValues : List Value → List MessageDecl
  | [] => []
  | v :: rest => (ofValue? v).toList ++ ofValues rest

end

end MessageDecl

def Location.ofMessage (m : Message) : Location :=
  { path := m.intsAt 1
    span := m.intsAt 2
    leading := m.textAt? 3
    trailing := m.textAt? 4
    detached := m.textsAt 6 }

def FileDecl.ofMessage (m : Message) : FileDecl :=
  { name := m.textAt 1
    package := m.textAt? 2
    dependencies := m.textsAt 3
    publicDependencies := m.intsAt 10
    weakDependencies := m.intsAt 11
    messages := MessageDecl.ofValues (m.manyAt 4)
    enums := (m.messagesAt 5).map EnumDecl.ofMessage
    services := (m.messagesAt 6).map ServiceDecl.ofMessage
    extensions := (m.messagesAt 7).map FieldDecl.ofMessage
    options := m.messageAt? 8
    locations := (m.messageAt? 9).map fun info => (info.messagesAt 1).map Location.ofMessage
    dialect := m.textAt? 12 }

end DescriptorKit
