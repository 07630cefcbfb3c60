import DescriptorKit.Source.Bucket

/-!
Where the files of a build came from. What is recorded first about a path stands; a later record
that differs is refused.
-/
namespace DescriptorKit.Build

structure Origins where
  externalPaths : List (String × String) := []
  localPaths : List (String × String) := []
  modules : List (String × ModuleName) := []
  commits : List (String × Commit) := []
  /-- The files that do not say which version of the language they are in. -/
  undeclared : List String := []

/-- Notes a value for a path, unless another one is noted. Values with one `key` are the same. -/
def noteValue {α β : Type} [DecidableEq β] (part : OriginPart) (key : α → β) (shown : α → String)
    (path : String) (value : α) (known : List (String × α)) :
    Except Breach (List (String × α)) :=
  match known.lookup path with
  | none => .ok ((path, value) :: known)
  | some first =>
    if key first = key value then .ok known
    else .error (.origin part path (shown first) (shown value))

/-- The steps of a path on disk. Empty steps do not count, and a dot only where the path starts
with it; the empty step stands for the root. -/
def diskSteps (path : String) : List String :=
  match Text.splitAt '/' path with
  | "" :: [] => []
  | first :: rest =>
    let rest := rest.filter fun step => step ≠ "" ∧ step ≠ "."
    first :: rest
  | [] => []

def moduleShown (m : ModuleName) : String :=
  "ModuleFullName \x7b remote: " ++ Text.quoted m.remote ++ ", owner: " ++ Text.quoted m.owner
    ++ ", name: " ++ Text.quoted m.name ++ " \x7d"

namespace Origins

/-- Steps that keep what they did when they fail. -/
abbrev Recording := ExceptT Breach (StateM Origins)

def recording (f : SourceFile) : Recording Unit := do
  let o ← get
  let externalPaths ← noteValue .externalPath id Text.quoted f.path f.externalPath o.externalPaths
  set { o with externalPaths }
  if let some localPath := f.localPath then
    let o ← get
    let localPaths ← noteValue .localPath diskSteps Text.quoted f.path localPath o.localPaths
    set { o with localPaths }
  if let some module := f.module then
    let o ← get
    let modules ← noteValue .module id moduleShown f.path module o.modules
    set { o with modules }
  if let some commit := f.commit then
    let o ← get
    let commits ← noteValue .commit id Commit.groupedText f.path commit o.commits
    set { o with commits }

/-- Records where a file came from, part by part up to the first that is refused. -/
def record (o : Origins) (f : SourceFile) : Except Breach Unit × Origins :=
  (recording f).run.run o

/-- Records a file that comes from nowhere. -/
def recordBundled (o : Origins) (path : String) : Origins :=
  if (o.externalPaths.lookup path).isSome then o
  else { o with externalPaths := (path, path) :: o.externalPaths }

def recordUndeclared (o : Origins) (path : String) : Origins :=
  { o with undeclared := path :: o.undeclared }

/-- The path to show to people. -/
def displayPath (o : Origins) (path : String) : String := (o.externalPaths.lookup path).getD path

end Origins
end DescriptorKit.Build
