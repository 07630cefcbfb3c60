import DescriptorKit.Image.Basic

/-!
Images as bytes. An image is one repeated field of encoded descriptors. Each of them carries what
the image knows about its file in a record of a reserved field at its end, so that a reader of plain
descriptor sets finds the same files and takes that record for an unknown one.
-/
namespace DescriptorKit
open Wire

namespace Storage

/-- The number of the reserved field. -/
def metadataNumber : Nat := 8042

def fileField : Field :=
  { number := 1, name := "file", kind := .scalar .bytes, repeated := true, presence := false }

def imageType : MessageType := ⟨"ProtoImage", [fileField], false⟩

def metadataField : Field :=
  { number := metadataNumber, name := "extension", kind := .message "ImageFileExtension" }

/-- A message that holds nothing but the metadata of a file. -/
def carrierType : MessageType := ⟨"ImageFileExtensionField", [metadataField], false⟩

def isImportField : Field := { number := 1, name := "is_import", kind := .scalar .bool }

def moduleField : Field := { number := 2, name := "module_info", kind := .message "ModuleInfo" }

def unspecifiedField : Field :=
  { number := 3, name := "is_syntax_unspecified", kind := .scalar .bool }

def unusedField : Field :=
  { number := 4, name := "unused_dependency", kind := .scalar .int32, repeated := true,
    presence := false }

def metadataType : MessageType :=
  ⟨"ImageFileExtension", [isImportField, moduleField, unspecifiedField, unusedField], false⟩

def nameField : Field := { number := 1, name := "name", kind := .message "ModuleName" }

def commitField : Field := { number := 2, name := "commit", kind := .scalar .string }

def moduleType : MessageType := ⟨"ModuleInfo", [nameField, commitField], false⟩

def remoteField : Field := { number := 1, name := "remote", kind := .scalar .string }

def ownerField : Field := { number := 2, name := "owner", kind := .scalar .string }

def repositoryField : Field := { number := 3, name := "repository", kind := .scalar .string }

def nameType : MessageType :=
  ⟨"ModuleName", [remoteField, ownerField, repositoryField], false⟩

def schema : Schema :=
  { messages := [imageType, carrierType, metadataType, moduleType, nameType] }

/-- Encoded descriptors as one message. -/
def encodeFiles (files : List Bytes) : Bytes :=
  Message.encode (Message.set fileField (.many (files.map fun b => .scalar (.bytes b))) [])

def decodeFiles (bytes : Bytes) : Except Failure (List Bytes) := do
  let m ← Message.decode schema .typed imageType bytes
  .ok (m.bytesAt 1)

def text (s : String) : Value := .scalar (.string s)

def flag (b : Bool) : Value := .scalar (.bool b)

/-- What an image knows about a file besides its descriptor. -/
def metadata (f : ImageFile) : Message :=
  let module := f.module.map fun m =>
    let name : Message :=
      [.known remoteField (text m.remote), .known ownerField (text m.owner),
        .known repositoryField (text m.name)]
    .known nameField (.message name) ::
      (f.commit.map fun c => Slot.known commitField (text c.text)).toList
  .known isImportField (flag f.isImport) ::
    (module.map fun m => Slot.known moduleField (.message m)).toList ++
    [.known unspecifiedField (flag f.syntaxUnspecified)] ++
    (if f.unused = [] then []
      else [.known unusedField (.many (f.unused.map fun i => .scalar (.int32 (Int32.ofNat i))))])

/-- A descriptor with the metadata of its file behind it. -/
def encodeFile (f : ImageFile) : Bytes :=
  f.descriptor.encode ++ Message.encode [.known metadataField (.message (metadata f))]

end Storage

namespace Image
open Storage

def encode (I : Image) : Bytes := encodeFiles (I.files.map encodeFile)

/-- The descriptors alone, custom options included. -/
def encodeDescriptors (I : Image) : Bytes := encodeFiles (I.files.map (·.descriptor.encode))

end Image

namespace Storage

/-- A descriptor and the metadata that came with it, empty when there was none. -/
def decodeFile (encoded : Bytes) : Except Error (Descriptor × Message) := do
  let (rest, extracted) ← (Records.split metadataNumber encoded).mapError .records
  let carrier ← (Message.decode schema .typed carrierType extracted).mapError .decode
  let descriptor ← (Descriptor.decode rest).mapError .decode
  .ok (descriptor, (carrier.messageAt? metadataNumber).getD [])

/-- The stored indexes of imports that are not needed. -/
def storedUnused (d : Descriptor) (metadata : Message) : Except Error (List Nat) :=
  (metadata.intsAt 4).mapM fun i =>
    if 0 ≤ i.toInt then .ok i.toInt.toNat else .error (.file (.negativeIndex d.name i.toInt))

/-- The stored module and commit of the file under `path`. -/
def storedModule (path : String) (metadata : Message) :
    Except Error (Option ModuleName × Option Commit) :=
  match metadata.messageAt? 2 with
  | none => .ok (none, none)
  | some info =>
    match info.messageAt? 1 with
    | none => .error (.file (.moduleWithoutName path))
    | some name =>
      match ModuleName.ofParts (name.textAt 1) (name.textAt 2) (name.textAt 3) with
      | .error given => .error (.file (.moduleName path given))
      | .ok module =>
        let spelling := info.textAt 2
        if spelling = "" then .ok (some module, none)
        else
          match Commit.parse spelling with
          | .error fault => .error (.file (.commit path spelling fault))
          | .ok commit => .ok (some module, some commit)

def fileOf (d : Descriptor) (metadata : Message) (unused : List Nat) : Except Error ImageFile := do
  if d.name = "" then throw (.file .noName)
  let (module, commit) ← storedModule d.name metadata
  ImageFile.ofParts
    { descriptor := d, module, commit, unused
      isImport := (metadata.boolAt? 1).getD false
      syntaxUnspecified := (metadata.boolAt? 3).getD false }

end Storage
end DescriptorKit
