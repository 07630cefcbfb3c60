import DescriptorKit.Descriptor

/-!
The files of an image: a compiled descriptor and where it came from.
-/
namespace DescriptorKit

namespace WellKnown

/-- The files that every protobuf distribution ships. -/
def paths : List String := [
  "google/protobuf/any.proto",
  "google/protobuf/api.proto",
  "google/protobuf/compiler/plugin.proto",
  "google/protobuf/cpp_features.proto",
  "google/protobuf/descriptor.proto",
  "google/protobuf/duration.proto",
  "google/protobuf/empty.proto",
  "google/protobuf/field_mask.proto",
  "google/protobuf/java_features.proto",
  "google/protobuf/source_context.proto",
  "google/protobuf/struct.proto",
  "google/protobuf/timestamp.proto",
  "google/protobuf/type.proto",
  "google/protobuf/wrappers.proto"]

def isWellKnown (path : String) : Bool := path ∈ paths

end WellKnown

/-- The numbers of a list in ascending order, each once. -/
def ascending (ns : List Nat) : List Nat := ns.foldl insert []
where
  insert : List Nat → Nat → List Nat
    | [], n => [n]
    | m :: rest, n =>
      if n < m then n :: m :: rest else if n = m then m :: rest else m :: insert rest n

structure ImageFile where
  descriptor : Descriptor
  externalPath : String
  localPath : Option String := none
  module : Option ModuleName := none
  commit : Option Commit := none
  isImport : Bool := false
  syntaxUnspecified : Bool := false
  /-- Indexes of imports that are not needed, in ascending order. -/
  unused : List Nat := []

namespace ImageFile

def path (f : ImageFile) : String := f.descriptor.name

def isWellKnown (f : ImageFile) : Bool := WellKnown.isWellKnown f.path

def dependencies (f : ImageFile) : List String := f.descriptor.dependencies

/-- The file as a target or as an import. -/
def withImport (f : ImageFile) (isImport : Bool) : ImageFile := { f with isImport }

/-- What a file is to be made of. -/
structure Parts where
  descriptor : Descriptor
  /-- The path of the descriptor where it is not given. -/
  externalPath : Option String := none
  localPath : Option String := none
  module : Option ModuleName := none
  commit : Option Commit := none
  isImport : Bool := false
  syntaxUnspecified : Bool := false
  unused : List Nat := []

/-- The first index that is out of range or that of a public import. -/
def badIndex? (d : Descriptor) : List Nat → Option FileFault
  | [] => none
  | i :: rest =>
    if d.dependencies.length ≤ i then some (.indexRange d.name i d.dependencies.length)
    else if d.isPublic i then some (.publicIndex d.name i)
    else badIndex? d rest

/-- The file of the given parts. Its name is a path in normal form, a commit comes with a module,
and imports that are not needed are there and not public. -/
def ofParts (p : Parts) : Except Error ImageFile :=
  let path := p.descriptor.name
  let unused := ascending p.unused
  if path = "" then .error (.file .noName)
  else
    match Path.normalize path with
    | .error fault => .error (.badPath path fault)
    | .ok normal =>
      if normal ≠ path then .error (.badPath path .nameNotNormal)
      else if p.commit.isSome && p.module.isNone then .error (.file (.commitWithoutModule path))
      else
        match badIndex? p.descriptor unused with
        | some fault => .error (.file fault)
        | none =>
          .ok { descriptor := p.descriptor
                externalPath := p.externalPath.getD path
                localPath := p.localPath
                module := p.module
                commit := p.commit
                isImport := p.isImport
                syntaxUnspecified := p.syntaxUnspecified
                unused }

end ImageFile
end DescriptorKit
