import DescriptorKit.Bundled.Descriptor
import DescriptorKit.Declaration.OfMessage
import DescriptorKit.Error
import DescriptorKit.Message.Decode
import DescriptorKit.Message.Encode

/-!
Compiled file descriptors. Each is held twice: as a message of some schema, which keeps custom
options and undeclared records, and as a typed message, which holds only what every descriptor
declares and serves for reading names, imports and declarations.
-/
namespace DescriptorKit

structure Descriptor where
  /-- The schema that `message` is read by. -/
  schema : Schema
  /-- The type of `message` in that schema. -/
  type : MessageType
  message : Message
  typed : Message

namespace Descriptor

/-- Reads a descriptor as typed readers do. -/
def readTyped (bytes : Bytes) : Except Wire.Failure Message :=
  Message.decode Bundled.descriptorSchema .typed Bundled.fileType bytes

/-- The descriptor that a message of the given type makes. -/
def ofMessage (schema : Schema) (type : MessageType) (m : Message) :
    Except Wire.Failure Descriptor := do
  let typed ← readTyped m.encode
  .ok ⟨schema, type, m, typed⟩

/-- Reads a descriptor as a message of `type`. -/
def decodeAs (schema : Schema) (type : MessageType) (bytes : Bytes) :
    Except Wire.Failure Descriptor := do
  let m ← Message.decode schema .lossless type bytes
  ofMessage schema type m

def decode (bytes : Bytes) : Except Wire.Failure Descriptor :=
  decodeAs Bundled.descriptorSchema Bundled.fileType bytes

/-- The descriptor of a typed message. -/
def ofTyped (typed : Message) : Except Wire.Failure Descriptor := do
  let m ← Message.decode Bundled.descriptorSchema .lossless Bundled.fileType typed.encode
  .ok ⟨Bundled.descriptorSchema, Bundled.fileType, m, typed⟩

def encode (d : Descriptor) : Bytes := d.message.encode

def name (d : Descriptor) : String := d.typed.textAt 1

def package (d : Descriptor) : String := d.typed.textAt 2

def dependencies (d : Descriptor) : List String := d.typed.textsAt 3

/-- Whether the import at an index is handed on to those who import the file. -/
def isPublic (d : Descriptor) (index : Nat) : Bool :=
  (d.typed.intsAt 10).any fun p => 0 ≤ p.toInt && p.toInt = index

def decl (d : Descriptor) : FileDecl := FileDecl.ofMessage d.typed

/-- Reads the descriptor again by another schema. The typed message stays as it is. -/
def reread (d : Descriptor) (schema : Schema) (type : MessageType) :
    Except Wire.Failure Descriptor := do
  let m ← Message.decode schema .lossless type d.encode
  .ok { d with schema, type, message := m }

end Descriptor
end DescriptorKit
