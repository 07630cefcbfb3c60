import DescriptorKit.Image.Narrow
import DescriptorKit.Image.Storage

/-!
Requests to code generators. A request lists descriptors, still encoded, and names those to generate
code for.
-/
namespace DescriptorKit

/-- The version of the program that makes a request. -/
structure Version where
  major : Option Int32 := none
  minor : Option Int32 := none
  patch : Option Int32 := none
  suffix : Option String := none
  deriving DecidableEq

structure Request where
  filesToGenerate : List String
  parameter : Option String := none
  version : Option Version := none
  /-- Encoded descriptors, imports first. -/
  descriptors : List Bytes
  deriving DecidableEq

/-- What a request is to hold besides the files of an image. -/
structure RequestOptions where
  parameter : Option String := none
  version : Option Version := none
  /-- Also generate code for imports. -/
  includeImports : Bool := false
  /-- Also generate code for imports that are well-known files. -/
  includeWellKnown : Bool := false

namespace Image

/-- Whether code is to be generated for a file of an image: every target, and an import where that
is asked for and nothing else takes care of it. -/
def generates (options : RequestOptions) (claimed targets : List String) (f : ImageFile) : Bool :=
  !f.isImport ||
    (options.includeImports && (options.includeWellKnown || !f.isWellKnown) &&
      !claimed.contains f.path && !targets.contains f.path)

/-- The paths of the files to generate code for, those claimed on the way included. -/
def generated (options : RequestOptions) (targets : List String) :
    List String → List ImageFile → List String
  | _, [] => []
  | claimed, f :: rest =>
    if generates options claimed targets f then
      f.path :: generated options targets (f.path :: claimed) rest
    else generated options targets claimed rest

/-- The request for an image, where other requests have claimed some imports and other images have
some targets. -/
def project (I : Image) (options : RequestOptions) (claimed targets : List String) : Request :=
  { filesToGenerate := generated options targets claimed I.files
    parameter := options.parameter
    version := options.version
    descriptors := I.files.map (·.descriptor.encode) }

def request (I : Image) (options : RequestOptions) : Request := I.project options [] []

/-- The requests for images one after the other. -/
def requestsFrom (options : RequestOptions) (targets : List String) :
    List String → List Image → List Request
  | _, [] => []
  | claimed, I :: rest =>
    let r := I.project options claimed targets
    r :: requestsFrom options targets (r.filesToGenerate ++ claimed) rest

/-- One request for each image, so that code for an import is generated at most once, and not at
all where the import is a target of one of the images. -/
def requests (images : List Image) (options : RequestOptions) : List Request :=
  let targets := (images.flatMap (·.files)).filter (fun f => !f.isImport)
  requestsFrom options (targets.map (·.path)) [] images

end Image

namespace Request

def generateField : Field :=
  { number := 1, name := "file_to_generate", kind := .scalar .string, repeated := true,
    presence := false }

def parameterField : Field := { number := 2, name := "parameter", kind := .scalar .string }

def versionField : Field := { number := 3, name := "compiler_version", kind := .message "Version" }

def descriptorField : Field :=
  { number := 15, name := "proto_file", kind := .scalar .bytes, repeated := true,
    presence := false }

def majorField : Field := { number := 1, name := "major", kind := .scalar .int32 }

def minorField : Field := { number := 2, name := "minor", kind := .scalar .int32 }

def patchField : Field := { number := 3, name := "patch", kind := .scalar .int32 }

def suffixField : Field := { number := 4, name := "suffix", kind := .scalar .string }

def requestType : MessageType :=
  ⟨"CodeGeneratorRequest", [generateField, parameterField, versionField, descriptorField], false⟩

def versionType : MessageType :=
  ⟨"Version", [majorField, minorField, patchField, suffixField], false⟩

def schema : Schema := { messages := [requestType, versionType] }

def versionMessage (v : Version) : Message :=
  let number (f : Field) (n : Option Int32) : List Slot :=
    (n.map fun n => Slot.known f (.scalar (.int32 n))).toList
  number majorField v.major ++ number minorField v.minor ++ number patchField v.patch ++
    (v.suffix.map fun s => Slot.known suffixField (.scalar (.string s))).toList

def toMessage (r : Request) : Message :=
  let many (f : Field) (vs : List Value) : List Slot :=
    if vs.isEmpty then [] else [.known f (.many vs)]
  many generateField (r.filesToGenerate.map fun s => .scalar (.string s)) ++
    (r.parameter.map fun s => Slot.known parameterField (.scalar (.string s))).toList ++
    (r.version.map fun v => Slot.known versionField (.message (versionMessage v))).toList ++
    many descriptorField (r.descriptors.map fun b => .scalar (.bytes b))

def encode (r : Request) : Bytes := r.toMessage.encode

def versionOf (m : Message) : Version :=
  { major := m.intAt? 1, minor := m.intAt? 2, patch := m.intAt? 3, suffix := m.textAt? 4 }

def ofMessage (m : Message) : Request :=
  { filesToGenerate := m.textsAt 1
    parameter := m.textAt? 2
    version := (m.messageAt? 3).map versionOf
    descriptors := m.bytesAt 15 }

def decode (bytes : Bytes) : Except Wire.Failure Request := do
  let m ← Message.decode schema .typed requestType bytes
  .ok (ofMessage m)

/-- The request with each descriptor reduced to what typed readers keep of it. -/
def typed (r : Request) : Except Wire.Failure Request := do
  let descriptors ← r.descriptors.mapM fun b => do
    let m ← Descriptor.readTyped b
    .ok m.encode
  .ok { r with descriptors }

end Request
end DescriptorKit
