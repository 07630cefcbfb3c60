import DescriptorKit.Error

/-!
Source files with what is known about where each came from, and buckets: the source files of a
build. A bucket in memory lists its files in the order in which their paths came first. What a build
reads from is more general: it may answer the same question differently the next time.
-/
namespace DescriptorKit

structure SourceFile where
  /-- In normal form, and not the root. -/
  path : String
  content : Bytes
  /-- The path to show to people. -/
  externalPath : String
  localPath : Option String := none
  module : Option ModuleName := none
  commit : Option Commit := none
  /-- Whether the file is to be built, rather than only there for others to import. -/
  isTarget : Bool := true

namespace SourceFile

/-- A target that belongs to no module. -/
def ofPath (path : String) (content : Bytes) : Except Error SourceFile :=
  match Path.normalize path with
  | .error fault => .error (.badPath path fault)
  | .ok normal =>
    if normal = "." then .error (.badPath normal .namesNoFile)
    else .ok { path := normal, content, externalPath := normal }

def withExternalPath (f : SourceFile) (path : String) : SourceFile :=
  { f with externalPath := path }

def withLocalPath (f : SourceFile) (path : String) : SourceFile := { f with localPath := some path }

def withModule (f : SourceFile) (module : ModuleName) (commit : Option Commit) : SourceFile :=
  { f with module := some module, commit }

def asDependency (f : SourceFile) : SourceFile := { f with isTarget := false }

end SourceFile

structure Bucket where
  files : List SourceFile := []

namespace Bucket

/-- The files with `f` in the place of the one that has its path, or at the end. -/
def place (f : SourceFile) : List SourceFile → List SourceFile
  | [] => [f]
  | g :: rest => if g.path = f.path then f :: rest else g :: place f rest

/-- Adds a file, in the place of an earlier one at the same path. -/
def insert (B : Bucket) (f : SourceFile) : Bucket := ⟨place f B.files⟩

/-- Adds a target that belongs to no module. -/
def addFile (B : Bucket) (path : String) (content : Bytes) : Except Error Bucket := do
  .ok (B.insert (← SourceFile.ofPath path content))

/-- Adds a file of a module that is only there for others to import. -/
def addDependency (B : Bucket) (path : String) (content : Bytes) (module : ModuleName)
    (commit : Option Commit) : Except Error Bucket := do
  let f ← SourceFile.ofPath path content
  .ok (B.insert (f.withModule module commit).asDependency)

def file? (B : Bucket) (path : String) : Option SourceFile := B.files.find? (·.path = path)

def paths (B : Bucket) : List String := B.files.map (·.path)

def targets (B : Bucket) : List String := (B.files.filter (·.isTarget)).map (·.path)

end Bucket

/-- What a build reads from. -/
structure SourceReader where
  /-- The paths that may be found. -/
  paths : List String
  /-- The paths to build, as they are given. -/
  targets : List String
  /-- What looking up a path gives when the path was looked up the given number of times before. -/
  lookup : String → Nat → Except Error (Option SourceFile)

/-- A bucket answers each lookup alike. -/
def Bucket.reader (B : Bucket) : SourceReader :=
  ⟨B.paths, B.targets, fun path _ => .ok (B.file? path)⟩

end DescriptorKit
