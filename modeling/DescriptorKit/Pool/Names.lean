import DescriptorKit.Declaration.Basic
import DescriptorKit.Pool.Fault
import DescriptorKit.Text.Split

/-!
The names that files declare. All names share one space, in which packages alone may be declared
many times. The values of an enum are named next to it.
-/
namespace DescriptorKit.Pool

/-- What a name stands for. -/
inductive SymbolSort where
  | package
  | message
  | field
  | oneof
  | enum
  | enumValue
  | extension
  | service
  | method
  deriving DecidableEq, Repr

structure Symbol where
  name : String
  sort : SymbolSort
  place : Place
  deriving DecidableEq, Repr

/-- What a walk over a file meets: a declared name, or a fault of its own. -/
inductive Event where
  | declare (s : Symbol)
  | fault (f : Finding)

namespace Event

def named (file : String) (sort : SymbolSort) (name : String) (path : List Int32) : Event :=
  .declare ⟨name, sort, ⟨file, path⟩⟩

/-- A field name without what tells its spellings in different cases apart. -/
def foldCase (name : String) : String :=
  String.ofList ((name.toList.filter (· ≠ '_')).map Char.toLower)

/-- Fields whose names differ in case and underscores only. Of those seen, the folded name, the name
and the index are given. -/
def sameFolded (file : String) (path : List Int32) :
    List (String × String × Nat) → List (FieldDecl × Nat) → List Event
  | _, [] => []
  | seen, (d, i) :: rest =>
    let place (i : Nat) : Place := ⟨file, MessageDecl.childPath path 2 i ++ [1]⟩
    match seen.find? (·.1 = foldCase d.name) with
    | some (_, first, j) =>
      .fault ⟨.camelCase first d.name, [place j, place i]⟩ :: sameFolded file path seen rest
    | none => sameFolded file path ((foldCase d.name, d.name, i) :: seen) rest

/-- Declared names of one sort, at the elements of a repeated field. -/
def each {α : Type} (file : String) (sort : SymbolSort) (scope : String) (path : List Int32)
    (field : Int32) (name : α → String) (items : List α) : List Event :=
  items.zipIdx.map fun (a, i) =>
    named file sort (qualify scope (name a)) (MessageDecl.childPath path field i ++ [1])

def ofEnum (file : String) (proto3 : Bool) (scope : String) (path : List Int32) (e : EnumDecl) :
    List Event :=
  named file .enum (qualify scope e.name) (path ++ [1]) ::
    (match e.values with
      | [] => [.fault ⟨.emptyEnum, [⟨file, path⟩]⟩]
      | v :: _ =>
        if proto3 && v.number ≠ 0 then [.fault ⟨.firstEnumValue, [⟨file, path ++ [2, 0, 2]⟩]⟩]
        else []) ++
    each file .enumValue scope path 2 EnumValueDecl.name e.values

def ofEnums (file : String) (proto3 : Bool) (scope : String) (path : List Int32) (field : Int32)
    (es : List EnumDecl) : List Event :=
  es.zipIdx.flatMap fun (e, i) =>
    ofEnum file proto3 scope (MessageDecl.childPath path field i) e

mutual

def ofMessage (file : String) (proto3 : Bool) (scope : String) (path : List Int32) :
    MessageDecl → List Event
  | ⟨name, fields, nested, enums, _, extensions, _, oneofs, _, _⟩ =>
    let inner := qualify scope name
    named file .message inner (path ++ [1]) ::
      (if proto3 then sameFolded file path [] fields.zipIdx else []) ++
      each file .oneof inner path 8 OneofDecl.name oneofs ++
      each file .field inner path 2 FieldDecl.name fields ++
      ofNested file proto3 inner path 3 0 nested ++
      ofEnums file proto3 inner path 4 enums ++
      each file .extension inner path 6 FieldDecl.name extensions

/-- Messages from an index on, elements of a repeated field of what stands at `path`. -/
def ofNested (file : String) (proto3 : Bool) (scope : String) (path : List Int32) (field : Int32)
    (index : Nat) : List MessageDecl → List Event
  | [] => []
  | m :: rest =>
    ofMessage file proto3 scope (MessageDecl.childPath path field index) m ++
      ofNested file proto3 scope path field (index + 1) rest

end

/-- A dotted name and everything it lies in, the outermost first. -/
def prefixes (name : String) : List String :=
  let parts := Text.splitAt '.' name
  (List.range parts.length).map fun i => Text.joinWith '.' (parts.take (i + 1))

def ofService (file : String) (scope : String) (path : List Int32) (s : ServiceDecl) :
    List Event :=
  named file .service (qualify scope s.name) (path ++ [1]) ::
    each file .method (qualify scope s.name) path 2 MethodDecl.name s.methods

/-- What a walk over a file meets, in order. -/
def ofFile (f : FileDecl) : List Event :=
  (if f.scope = "" then []
    else (prefixes f.scope).map fun p => named f.name .package p [2]) ++
    ofNested f.name f.isProto3 f.scope [] 4 0 f.messages ++
    ofEnums f.name f.isProto3 f.scope [] 5 f.enums ++
    (f.services.zipIdx.flatMap fun (s, i) =>
      ofService f.name f.scope (MessageDecl.childPath [] 6 i) s) ++
    each f.name .extension f.scope [] 7 FieldDecl.name f.extensions

end Event

/-- The names known so far, and what was found wrong on the way, the last finding first. -/
structure Names where
  symbols : List Symbol
  findings : List Finding := []

namespace Names

def find? (symbols : List Symbol) (name : String) : Option Symbol :=
  symbols.find? (·.name = name)

/-- A name declared twice. -/
def clash (first second : Symbol) : Finding :=
  { fault :=
      if first.place.file = second.place.file then .nameTwice second.name
      else .nameTaken second.name first.place.file
    places := [first.place, second.place] }

def add (n : Names) : Event → Names
  | .fault f => { n with findings := f :: n.findings }
  | .declare s =>
    match find? n.symbols s.name with
    | none => { n with symbols := s :: n.symbols }
    | some t =>
      if t.sort = .package ∧ s.sort = .package then n
      else { n with findings := clash t s :: n.findings }

/-- Adds the names of files to those known. No two files may have one name. -/
def addFiles (known : List String) (n : Names) : List FileDecl → Names
  | [] => n
  | f :: rest =>
    let n :=
      if f.name ∈ known then { n with findings := ⟨.fileTwice f.name, []⟩ :: n.findings } else n
    addFiles (f.name :: known) ((Event.ofFile f).foldl add n) rest

end Names
end DescriptorKit.Pool
