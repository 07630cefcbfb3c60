import DescriptorKit.Message.Basic

/-!
What a source file declares: messages, enums, extensions and services, with the options attached to
each. Numbers are kept as they were given, in range or not. Fields also have names in the text form
that speaks of objects.
-/
namespace DescriptorKit

inductive Label where
  | optional
  | required
  | repeated
  deriving DecidableEq, Repr

/-- The type of a field as its declaration spells it. -/
inductive FieldType where
  | scalar (k : ScalarKind)
  | group
  | message
  | enum
  deriving DecidableEq, Repr

structure FieldDecl where
  name : String
  number : Int32
  label : Label := .optional
  /-- Absent, or a type that is not known. -/
  type : Option FieldType := none
  typeName : Option String := none
  extendee : Option String := none
  defaultValue : Option String := none
  oneofIndex : Option Int32 := none
  jsonName : Option String := none
  /-- An optional field of the third version of the language. -/
  explicitOptional : Bool := false
  options : Option Message := none

structure OneofDecl where
  name : String
  options : Option Message := none

structure EnumValueDecl where
  name : String
  number : Int32
  options : Option Message := none

/-- Numbers from `start` to `stop`. Whether `stop` is one of them is up to the owner of the
range. -/
structure RangeDecl where
  start : Int32
  stop : Int32
  options : Option Message := none

structure EnumDecl where
  name : String
  values : List EnumValueDecl
  options : Option Message := none
  /-- Up to and including `stop`. -/
  reservedRanges : List RangeDecl := []
  reservedNames : List String := []

structure MessageDecl where
  name : String
  fields : List FieldDecl := []
  nested : List MessageDecl := []
  enums : List EnumDecl := []
  /-- Up to but not including `stop`. -/
  extensionRanges : List RangeDecl := []
  extensions : List FieldDecl := []
  options : Option Message := none
  oneofs : List OneofDecl := []
  /-- Up to but not including `stop`. -/
  reservedRanges : List RangeDecl := []
  reservedNames : List String := []

structure MethodDecl where
  name : String
  input : String
  output : String
  options : Option Message := none
  clientStreaming : Option Bool := none
  serverStreaming : Option Bool := none

structure ServiceDecl where
  name : String
  methods : List MethodDecl := []
  options : Option Message := none

/-- Where a declaration stands in its source text, and the comments around it. -/
structure Location where
  /-- Field numbers and indexes that lead from the file to the declaration. -/
  path : List Int32
  /-- First line and column, last line where it differs, last column; all count from zero. -/
  span : List Int32
  leading : Option String := none
  trailing : Option String := none
  detached : List String := []

structure FileDecl where
  name : String
  package : Option String := none
  dependencies : List String := []
  publicDependencies : List Int32 := []
  weakDependencies : List Int32 := []
  messages : List MessageDecl := []
  enums : List EnumDecl := []
  services : List ServiceDecl := []
  extensions : List FieldDecl := []
  options : Option Message := none
  locations : Option (List Location) := none
  /-- The version of the language that the file states. -/
  dialect : Option String := none

/-- A name inside a scope. The empty scope is the root. -/
def qualify (scope name : String) : String :=
  if scope = "" then name else scope ++ "." ++ name

namespace FileDecl

/-- Whether the import at an index is handed on to those who import the file. -/
def isPublic (f : FileDecl) (index : Nat) : Bool :=
  f.publicDependencies.any fun p => 0 ≤ p.toInt && p.toInt = index

/-- The scope that the file's own declarations stand in. -/
def scope (f : FileDecl) : String := f.package.getD ""

def isProto3 (f : FileDecl) : Bool := f.dialect = some "proto3"

end FileDecl

/-- A message type together with where it stands. -/
structure MessageSite where
  path : List Int32
  /-- The full name of the message. -/
  fullName : String
  decl : MessageDecl

namespace MessageDecl

/-- The path of an element of a repeated field of what stands at `path`. -/
def childPath (path : List Int32) (field : Int32) (index : Nat) : List Int32 :=
  path ++ [field, Int32.ofNat index]

mutual

/-- The message and everything nested in it, each before what is nested in it. -/
def sites (path : List Int32) (scope : String) : MessageDecl → List MessageSite
  | m@⟨name, _, nested, _, _, _, _, _, _, _⟩ =>
    ⟨path, qualify scope name, m⟩ :: nestedSites path (qualify scope name) 0 nested

def nestedSites (path : List Int32) (scope : String) (index : Nat) :
    List MessageDecl → List MessageSite
  | [] => []
  | m :: rest =>
    sites (childPath path 3 index) scope m ++ nestedSites path scope (index + 1) rest

end

end MessageDecl

namespace FileDecl

/-- Every message of the file at any depth. -/
def sites (f : FileDecl) : List MessageSite :=
  f.messages.zipIdx.flatMap fun (m, i) => m.sites [4, Int32.ofNat i] f.scope

end FileDecl
/-- Each underscore goes, and the letter behind it becomes a capital. The first letter is one where
`capital` says so. -/
def humps (capital : Bool) : List Char → List Char
  | [] => []
  | c :: rest =>
    if c = '_' then humps true rest
    else (if capital then c.toUpper else c) :: humps false rest

def jsonName (name : String) : String := String.ofList (humps false name.toList)

/-- The name that a field states, or else the one that its own name gives. -/
def FieldDecl.objectName (d : FieldDecl) : String := d.jsonName.getD (DescriptorKit.jsonName d.name)

end DescriptorKit
