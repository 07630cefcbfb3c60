import DescriptorKit.Build.Supply
import DescriptorKit.Pool.Basic

/-!
Linking the files of a build. Each file is added to a pool after the files it imports, which are
linked first, in the order in which it imports them.
-/
namespace DescriptorKit.Build
open DescriptorKit.Language

/-- Why a file cannot be linked. -/
inductive LinkFault where
  /-- A file that is asked for, or imported by the given one. -/
  | missing (path : String) (importer : Option String)
  | unreadable (path source : String) (faults : List Fault)
  /-- An import of a file that is being linked, reached by way of the given files. -/
  | cycle (path : String) (stack : List String)
  | importTwice (path : String) (importer : SourceUnit) (span : Option Span)
  | pool (finding : Pool.Finding) (unit : SourceUnit)

namespace LinkFault

def ofSupply : SupplyFault → LinkFault
  | .missing path => .missing path none
  | .unreadable path source faults => .unreadable path source faults

/-- The file that a fault is about, where it knows one. -/
def file? : LinkFault → Option String
  | .missing _ importer => importer
  | .unreadable path _ _ => some path
  | .cycle path _ => some path
  | .importTwice _ unit _ => some unit.file.name
  | .pool _ unit => some unit.file.name

def text : LinkFault → String
  | .missing path none => "file '" ++ path ++ "' not found"
  | .missing path (some _) => "import '" ++ path ++ "' not found"
  | .unreadable _ _ faults => (faults.head?.map Fault.text).getD ""
  | .cycle path stack =>
    "import cycle detected: " ++ String.intercalate " -> " (stack ++ [path])
  | .importTwice path _ _ => "import '" ++ path ++ "' was listed twice"
  | .pool finding _ => finding.fault.text

/-- The places in the file that a fault points to: offsets into its source. Of declarations, line
and column alone are known, of an import its length too, with which it has to fit. -/
def places : LinkFault → Bytes × List Nat
  | .unreadable _ source faults =>
    (Bytes.ofText source, ((faults.head?.map Fault.spans).getD []).map (·.start))
  | .importTwice _ unit span =>
    (unit.source, span.toList.filterMap fun s =>
      if s.onOneLine unit.source then do
        let start ← Position.relocate? unit.source s.start
        guard (start + s.length ≤ unit.source.length + 1)
        return start
      else none)
  | .pool finding unit =>
    let here := finding.places.filter (·.file = unit.file.name)
    (unit.source, here.filterMap fun p =>
      (unit.marks.find? (·.path = p.path)).bind fun m =>
        Position.relocate? unit.source m.span.start)
  | _ => ([], [])

/-- What is told about a fault: once for each place it points to, or once without a place. -/
def annotations (origins : Origins) (f : LinkFault) : List Annotation :=
  let path := (f.file?.map origins.displayPath).getD ""
  match f.places with
  | (_, []) => [⟨path, 0, 0, f.text⟩]
  | (source, offsets) =>
    offsets.map fun offset =>
      let p := Position.shown offset 0 {} source
      ⟨path, p.line + 1, p.column + 1, f.text⟩

/-- The fault as one of the file that imports the missing one. -/
def inImporter (importer : String) : LinkFault → LinkFault
  | .missing path none => .missing path (some importer)
  | f => f

end LinkFault

/-- A file that was linked, with its options read. -/
structure Linked where
  unit : SourceUnit
  file : FileDecl
  moves : List (List Int32 × List Int32)

/-- How far linking has come. -/
structure Linking where
  supply : Supply
  pool : Pool := {}
  /-- In the order in which they were linked. -/
  files : List Linked := []

/-- Steps that keep what they did when they fail. -/
abbrev Linker := ExceptT LinkFault (StateM Linking)

namespace Linker

def isLinked (path : String) : Linker Bool := do
  return (← get).files.any (·.file.name = path)

def take (R : SourceReader) (path : String) : Linker SourceUnit := do
  let l ← get
  let (result, supply) := (Supply.take R path).run l.supply
  set { l with supply }
  match result with
  | .ok unit => return unit
  | .error fault => throw (.ofSupply fault)

/-- Adds a file to the pool. -/
def add (unit : SourceUnit) : Linker Unit := do
  let l ← get
  match l.pool.extend [unit.file] with
  | .error finding => throw (.pool finding unit)
  | .ok (pool, added) =>
    set { l with
      pool
      files := l.files ++ added.map fun (a : Pool.Added) => Linked.mk unit a.file a.moves }

/-- Where an import stands in a source. -/
def importSpan? (unit : SourceUnit) (index : Nat) : Option Span :=
  (unit.marks.find? (·.path = MessageDecl.childPath [] 3 index)).map (·.span)

/-- Links the imports of a file one after the other; `link` links one. -/
def linkImports (link : String → Linker Unit) (unit : SourceUnit) :
    List String → List (String × Nat) → Linker Unit
  | _, [] => return ()
  | seen, (path, index) :: rest => do
    tryCatch (link path) fun f => throw (f.inImporter unit.file.name)
    if path ∈ seen then throw (.importTwice path unit (importSpan? unit index))
    linkImports link unit (path :: seen) rest

/-- Links a file and what it imports. `stack` leads to it; each level below finds another one of the
paths that there are, so `fuel` need not be much more than their number. -/
def link (R : SourceReader) : (fuel : Nat) → List String → String → Linker Unit
  | 0, _, path => throw (.missing path none)
  | fuel + 1, stack, path => do
    if path ∈ stack then throw (.cycle path stack)
    if ← isLinked path then return
    let unit ← take R path
    linkImports (link R fuel (stack ++ [path])) unit [] unit.file.dependencies.zipIdx
    add unit

/-- Links a file that is to be built, with enough fuel for all paths that there are: as many levels,
one for a path that leads back to one of them, and two for what that one imports. -/
def linkTarget (R : SourceReader) (path : String) : Linker Unit :=
  link R (R.paths.length + Bundled.files.length + 3) [] path

end Linker
end DescriptorKit.Build
