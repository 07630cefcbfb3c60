import DescriptorKit.Image.Basic
import DescriptorKit.Reach

/-!
Narrowing an image to some of its paths: what is asked for stays as targets, what that imports stays
as imports, all else goes.
-/
namespace DescriptorKit.Image

/-- Whether a path that matches no file is an error. -/
inductive Missing where
  | refused
  | allowed
  deriving DecidableEq

/-- The first include path that lies at or under an exclude path, with that path. -/
def excluded? (exclude : List String) : List String → Option (String × String)
  | [] => none
  | i :: rest =>
    match exclude.find? fun e => Path.contains e i with
    | some e => some (i, e)
    | none => excluded? exclude rest

/-- The first path with no file at or under it. -/
def unmatched? (I : Image) (paths : List String) : Option String :=
  paths.find? fun p => !I.files.any fun f => Path.contains p f.path

/-- The paths that are asked for: those at or under some include path, or the targets when there is
none, without those at or under an exclude path. -/
def asked (I : Image) (include_ exclude : List String) : List String :=
  let candidates :=
    if include_ = [] then I.files.filter fun f => !f.isImport
    else I.files.filter fun f => include_.any fun p => Path.contains p f.path
  (candidates.map (·.path)).filter fun path => !exclude.any fun p => Path.contains p path

/-- The imports of the file under a path that are present. -/
def importsAt (I : Image) (path : String) : List String :=
  match I.file? path with
  | none => []
  | some f => f.dependencies.filterMap fun d => (I.file? d).map (·.path)

/-- The files reached from the paths asked for, which alone become targets. -/
def keep (I : Image) (targets : List String) : Except Error Image :=
  let needed := reachable I.importsAt I.paths targets
  ofFiles ((I.files.filter fun f => f.path ∈ needed).map fun f =>
    f.withImport (!(targets.contains f.path)))

/-- Narrows to paths in normal form. -/
def narrowTo (I : Image) (missing : Missing) (include_ exclude : List String) :
    Except Error Image :=
  if include_ = [] ∧ exclude = [] then .ok I
  else
    match excluded? exclude include_ with
    | some (i, e) => .error (.excludeContainsInclude i e)
    | none =>
      match if missing = .refused then I.unmatched? (include_ ++ exclude) else none with
      | some path => .error (.pathNotFound path)
      | none =>
        let targets := I.asked include_ exclude
        if targets = [] then .error .noFiles else I.keep targets

def normalizeAll (paths : List String) : Except Error (List String) :=
  paths.mapM fun p => (Path.normalize p).mapError (.badPath p)

/-- Narrows to the given paths, which may name files or directories. Without include paths every
target is asked for. -/
def narrow (I : Image) (missing : Missing) (include_ exclude : List String) :
    Except Error Image := do
  let include_ ← normalizeAll include_
  let exclude ← normalizeAll exclude
  I.narrowTo missing include_ exclude

/-- The directories of the targets, in ascending order. -/
def directories (I : Image) : List String :=
  dropRepeats (((I.files.filter fun f => !f.isImport).map fun f => Path.dir f.path).mergeSort
    fun a b => a < b || a = b)

/-- The targets of a directory. -/
def targetsIn (I : Image) (dir : String) : List String :=
  ((I.files.filter fun f => !f.isImport).map (·.path)).filter fun p => Path.dir p = dir

/-- One image for each directory that holds a target, with exactly these targets. -/
def byDirectory (I : Image) : Except Error (List Image) :=
  I.directories.mapM fun dir => I.narrow .refused (I.targetsIn dir) []

end DescriptorKit.Image
