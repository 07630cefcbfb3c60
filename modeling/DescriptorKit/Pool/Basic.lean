import DescriptorKit.Pool.Options

/-!
Pools: sets of files that fit together. A pool grows by whole sets of files; it refuses a set with
the first fault found, after looking at all names, then at what they refer to, then at options.
-/
namespace DescriptorKit

structure Pool where
  /-- Type names in them are absolute, and their options are read. -/
  files : List FileDecl := []
  /-- The same files with their options as they were before they were read. -/
  unread : List FileDecl := []
  symbols : List Pool.Symbol := []

namespace Pool

/-- The types that the files declare. Options that had to be read do not count where they ask for
packed records. -/
def schema (P : Pool) : Schema := Schema.ofFilesIn (Schema.contextOf P.files) P.unread

/-- A file that was added, and where its options stand now. -/
structure Added where
  file : FileDecl
  moves : List (List Int32 × List Int32)

/-- The first of the findings, which are given last one first. -/
def first (findings : List Finding) : Except Finding Unit :=
  match findings.getLast? with
  | none => .ok ()
  | some f => .error f

/-- Reads the options of files in a pool that fits together otherwise. -/
def readOptions (P : Pool) (files : List FileDecl) : Except Finding (List Added) :=
  let read := files.map fun f =>
    (OptionReader.readFile ⟨P.schema, view P.symbols P.files f⟩ f).run {}
  match first (read.reverse.flatMap fun (_, notes) => notes.findings) with
  | .error f => .error f
  | .ok () => .ok (read.map fun (f, notes) => ⟨f, notes.moves⟩)

/-- The pool with more files. Files whose name is taken are left out. -/
def extend (P : Pool) (files : List FileDecl) : Except Finding (Pool × List Added) := do
  let new := files.filter fun f => !P.files.any (·.name = f.name)
  let names := Names.addFiles (P.files.map (·.name)) ⟨P.symbols, []⟩ new
  first names.findings
  let all := P.files ++ new
  let messages := all.flatMap fun f => f.sites.map (MessagePlace.mk f.name)
  let context := Schema.contextOf all
  first (new.flatMap (fileFindings names.symbols all context messages)).reverse
  let resolved := new.map fun f => resolveFile (view names.symbols all f) f
  let unread := P.unread ++ resolved
  let added ← readOptions ⟨P.files ++ resolved, unread, names.symbols⟩ resolved
  .ok (⟨P.files ++ added.map (·.file), unread, names.symbols⟩, added)

end Pool
end DescriptorKit
