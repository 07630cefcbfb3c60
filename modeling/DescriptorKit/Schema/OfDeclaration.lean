import DescriptorKit.Declaration.Basic
import DescriptorKit.Message.Basic
import DescriptorKit.Text.Literal

/-!
The schema that a set of files declares. Type names in the files are absolute: they start with a
dot, followed by a full name.
-/
namespace DescriptorKit

/-- The full name that an absolute name stands for. -/
def absolute (name : String) : String :=
  match name.toList with
  | '.' :: rest => String.ofList rest
  | _ => name

namespace MessageDecl

/-- Messages of the type are the entries of a map field. -/
def isMapEntry (m : MessageDecl) : Bool := (m.options.bind (·.boolAt? 7)).getD false

end MessageDecl

namespace FieldDecl

/-- Whether the declaration itself decides on packed records. Whatever options it has decide, and
those that do not ask for packed records decide against them. -/
def packedOption (d : FieldDecl) : Option Bool := d.options.map fun o => (o.boolAt? 2).getD false

end FieldDecl

namespace Schema

/-- The enums of a file, under their full names. -/
def enumsOf (f : FileDecl) : List (String × EnumDecl) :=
  (f.enums.map fun e => (qualify f.scope e.name, e)) ++
    f.sites.flatMap fun s => s.decl.enums.map fun e => (qualify s.fullName e.name, e)

def enumType (name : String) (e : EnumDecl) : EnumType :=
  ⟨name, e.values.map fun v => (v.name, v.number)⟩

/-- What a field declaration needs to know about the types around it. -/
structure Context where
  enums : List EnumType
  mapEntries : List String

def contextOf (files : List FileDecl) : Context :=
  { enums := files.flatMap fun f => (enumsOf f).map fun (n, e) => enumType n e
    mapEntries := files.flatMap fun f =>
      (f.sites.filter (·.decl.isMapEntry)).map (·.fullName) }

/-- The kind of a field: what its type name stands for decides, where it has one. -/
def kindOf (C : Context) (d : FieldDecl) : Kind :=
  match d.typeName.getD "", d.type with
  | "", some (.scalar k) => .scalar k
  | "", _ => .scalar .double
  | typeName, type =>
    let name := absolute typeName
    if C.enums.any (·.name = name) then .enum name
    else if type = some .group then .group name
    else .message name

/-- A default as its declaration spells it. -/
def defaultOf (C : Context) (kind : Kind) (text : String) : Option Scalar :=
  match kind with
  | .scalar k => Text.Literal.scalarOf? k text
  | .enum type =>
    (C.enums.find? (·.name = type)).bind fun e =>
      (e.values.find? (·.1 = text)).map fun v => .enum v.2
  | _ => none

def field (C : Context) (proto3 : Bool) (extendedBy : Option String) (d : FieldDecl) : Field :=
  let kind := kindOf C d
  let repeated := d.label = .repeated
  let isMessage := match kind with
    | .message _ | .group _ => true
    | _ => false
  let isMap := match kind with
    | .message type => repeated && C.mapEntries.contains type
    | _ => false
  let plain : Field :=
    { number := d.number.toInt.toNat, name := d.name, kind, repeated, map := isMap, extendedBy }
  { plain with
    packed := plain.packable && (d.packedOption.getD proto3)
    presence := d.explicitOptional || d.oneofIndex.isSome
      || (!repeated && (isMessage || !proto3 || extendedBy.isSome))
    required := d.label = .required
    oneof := d.oneofIndex.map (·.toInt.toNat)
    declaredDefault := d.defaultValue.bind (defaultOf C kind) }

def insertByNumber (f : Field) : List Field → List Field
  | [] => [f]
  | g :: rest => if f.number < g.number then f :: g :: rest else g :: insertByNumber f rest

def messageType (C : Context) (proto3 : Bool) (s : MessageSite) : MessageType :=
  { name := s.fullName
    fields := s.decl.fields.foldl (fun fs d => insertByNumber (field C proto3 none d) fs) []
    mapEntry := C.mapEntries.contains s.fullName }

/-- The extensions of a file, those of the file itself first. -/
def extensionsOf (C : Context) (f : FileDecl) : List Extension :=
  let extension (scope : String) (d : FieldDecl) : Extension :=
    ⟨qualify scope d.name, absolute (d.extendee.getD ""), field C f.isProto3 (some f.name) d⟩
  f.extensions.map (extension f.scope) ++
    f.sites.flatMap fun s => s.decl.extensions.map (extension s.fullName)

/-- The schema of files, where the types around their fields are known. -/
def ofFilesIn (C : Context) (files : List FileDecl) : Schema :=
  { messages := files.flatMap fun f => f.sites.map (messageType C f.isProto3)
    enums := C.enums
    extensions := files.flatMap (extensionsOf C) }

def ofFiles (files : List FileDecl) : Schema := ofFilesIn (contextOf files) files

end Schema
end DescriptorKit
