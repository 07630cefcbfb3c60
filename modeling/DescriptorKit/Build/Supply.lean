import DescriptorKit.Build.Origins
import DescriptorKit.Bundled.Files
import DescriptorKit.Language.Parser.File
import DescriptorKit.Source.Bucket
import DescriptorKit.Source.Dialect

/-!
Supplying a build with sources. A path is looked up where the build reads from, then among the
bundled files. The first failure and all paths that were not found are kept, since who asks learns
only that there is no such file.
-/
namespace DescriptorKit.Build
open DescriptorKit.Language

structure Supply where
  /-- The paths looked up so far. -/
  lookups : List String := []
  origins : Origins := {}
  /-- Sources that were read ahead. -/
  ahead : List (String × SourceUnit) := []
  /-- The paths that were not found, in the order in which they were asked for. -/
  missing : List String := []
  failure : Option Error := none

/-- Why a source is not supplied. -/
inductive SupplyFault where
  | missing (path : String)
  | unreadable (path source : String) (faults : List Fault)

abbrev Supplying := StateM Supply

namespace Supply

def addMissing (s : Supply) (path : String) : Supply :=
  if path ∈ s.missing then s else { s with missing := s.missing ++ [path] }

def fail (s : Supply) (e : Error) : Supply := { s with failure := s.failure <|> some e }

/-- The answer to a lookup, which counts. -/
def lookUp (R : SourceReader) (path : String) : Supplying (Except Error (Option SourceFile)) := do
  let s ← get
  set { s with lookups := path :: s.lookups }
  return R.lookup path (s.lookups.count path)

/-- Reads a source that was found. -/
def read (path : String) (f : SourceFile) : Supplying (Except SupplyFault SourceUnit) := do
  let s ← get
  let (result, origins) := s.origins.record f
  set { s with origins }
  match result with
  | .error breach =>
    modify (·.fail (.breach breach))
    return .error (.missing path)
  | .ok () =>
    let source := Text.lossy f.content
    if !Source.declaresDialect source then
      modify fun s => { s with origins := s.origins.recordUndeclared path }
    match SourceUnit.parse path source with
    | .ok unit => return .ok unit
    | .error faults => return .error (.unreadable path source faults)

/-- A bundled file, which has no source. -/
def bundled (path : String) : Supplying (Except SupplyFault SourceUnit) := do
  match Bundled.file? path with
  | some file =>
    modify fun s => { s with origins := s.origins.recordBundled path }
    return .ok ⟨[], file, []⟩
  | none =>
    modify (·.addMissing path)
    return .error (.missing path)

def load (R : SourceReader) (name : String) : Supplying (Except SupplyFault SourceUnit) := do
  match Path.normalize name with
  | .error _ =>
    modify (·.addMissing name)
    return .error (.missing name)
  | .ok path =>
    match ← lookUp R path with
    | .ok (some f) => read path f
    | .ok none => bundled path
    | .error e =>
      modify (·.fail e)
      return .error (.missing path)

/-- Reads a source before it is asked for. -/
def readAhead (R : SourceReader) (path : String) : Supplying (Except SupplyFault Unit) := do
  if ((← get).ahead.lookup path).isSome then return .ok ()
  else
    match ← load R path with
    | .error fault => return .error fault
    | .ok unit =>
      modify fun s => { s with ahead := (path, unit) :: s.ahead }
      return .ok ()

/-- Supplies a source. One that was read ahead is supplied once. -/
def take (R : SourceReader) (path : String) : Supplying (Except SupplyFault SourceUnit) := do
  let s ← get
  match s.ahead.lookup path with
  | some unit =>
    set { s with ahead := s.ahead.filter (·.1 ≠ path) }
    return .ok unit
  | none => load R path

end Supply
end DescriptorKit.Build
