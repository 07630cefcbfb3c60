import DescriptorKit.Schema.Scalar

/-!
Message schemas: which fields the messages of each type have, and which extensions are declared for
them. Types refer to each other by full name, without a leading dot.
-/
namespace DescriptorKit

inductive Kind where
  | scalar (k : ScalarKind)
  | enum (type : String)
  | message (type : String)
  /-- A message written between group markers. -/
  | group (type : String)
  deriving DecidableEq, Repr

/-- A declared field or extension, with its type resolved. -/
structure Field where
  number : Nat
  name : String
  kind : Kind
  repeated : Bool := false
  /-- Repeated values are the entries of a map. -/
  map : Bool := false
  /-- Repeated values share one record. -/
  packed : Bool := false
  /-- The field tells apart being unset and holding its default. -/
  presence : Bool := true
  /-- The field is written even when nothing was set. -/
  required : Bool := false
  /-- The index of the oneof the field is a member of. -/
  oneof : Option Nat := none
  declaredDefault : Option Scalar := none
  /-- The file that declares the field, where it extends a message. -/
  extendedBy : Option String := none
  deriving DecidableEq

namespace Field

def isExtension (f : Field) : Bool := f.extendedBy.isSome

def packable (f : Field) : Bool :=
  f.repeated && match f.kind with
    | .scalar k => k.packable
    | .enum _ => true
    | _ => false

end Field

namespace Kind

def wireType : Kind → Wire.WireType
  | .scalar k => k.wireType
  | .enum _ => .varint
  | .message _ => .delimited
  | .group _ => .startGroup

def text : Kind → String
  | .scalar k => k.name
  | .enum type | .message type | .group type => type

end Kind

structure MessageType where
  /-- The full name. -/
  name : String
  /-- By ascending number. -/
  fields : List Field
  mapEntry : Bool := false

/-- The last component of the full name. -/
def MessageType.shortName (t : MessageType) : String :=
  String.ofList (t.name.toList.reverse.takeWhile (· ≠ '.')).reverse

structure EnumType where
  name : String
  /-- In declaration order. -/
  values : List (String × Int32)

/-- An extension, under its full name. -/
structure Extension where
  name : String
  extendee : String
  field : Field

structure Schema where
  messages : List MessageType := []
  enums : List EnumType := []
  extensions : List Extension := []

namespace MessageType

def fieldNumbered? (t : MessageType) (number : Nat) : Option Field :=
  t.fields.find? (·.number = number)

def fieldNamed? (t : MessageType) (name : String) : Option Field :=
  t.fields.find? (·.name = name)

end MessageType

namespace Schema

def message? (S : Schema) (name : String) : Option MessageType :=
  S.messages.find? (·.name = name)

def enum? (S : Schema) (name : String) : Option EnumType :=
  S.enums.find? (·.name = name)

/-- The extension of a message type under a number. -/
def extension? (S : Schema) (type : String) (number : Nat) : Option Field :=
  (S.extensions.find? fun e => e.extendee = type && e.field.number = number).map (·.field)

def extensionNamed? (S : Schema) (name : String) : Option Extension :=
  S.extensions.find? (·.name = name)

/-- The field that a number stands for in messages of a type: a declared one before any
extension. -/
def field? (S : Schema) (t : MessageType) (number : Nat) : Option Field :=
  t.fieldNumbered? number <|> S.extension? t.name number

/-- The message type that the values of a field have. -/
def messageOf? (S : Schema) (f : Field) : Option MessageType :=
  match f.kind with
  | .message type | .group type => S.message? type
  | _ => none

/-- What an unset scalar field holds: its declared default, else the first declared value of its
enum, else the zero of its kind. -/
def scalarDefault? (S : Schema) (f : Field) : Option Scalar :=
  f.declaredDefault <|>
    match f.kind with
    | .scalar k => some k.zero
    | .enum type => some (.enum (((S.enum? type).bind (·.values.head?)).elim 0 (·.2)))
    | _ => none

end Schema
end DescriptorKit
