import DescriptorKit.Declaration.Basic
import DescriptorKit.Language.Parser.Range

/-!
Fields: those of messages and oneofs, and extensions. A map brings along a message for its entries,
a group one for its values.
-/
namespace DescriptorKit.Language.Parser

/-- The name of the message that holds the entries of a map. -/
def entryName (name : String) : String :=
  String.ofList (humps true name.toList) ++ "Entry"

def scalarNames : List (String × ScalarKind) :=
  [.double, .float, .int32, .int64, .uint32, .uint64, .sint32, .sint64, .fixed32, .fixed64,
    .sfixed32, .sfixed64, .bool, .string, .bytes].map fun k => (k.name, k)

def labels : List (String × Label) :=
  [("optional", .optional), ("required", .required), ("repeated", .repeated)]

/-- A field with the message that it brings along. -/
structure Parsed where
  field : FieldDecl
  nested : Option MessageDecl := none

/-- How messages of groups are read: the body of a message at a path. -/
abbrev BodyReader := List Int32 → String → Parser MessageDecl

/-- Where a field stands. -/
inductive FieldScope where
  | message
  | oneof
  | extension
  deriving DecidableEq

/-- The label of a field and where it stands. -/
abbrev WrittenLabel := Label × Span

/-- The third version of the language lacks some things; they are told in the end. -/
def outdated (what : String) (span : Span) : Parser Unit := do
  if (← get).proto3 then noteLate (.outdated what span)

/-- What is wrong with the label of a field that starts at a byte and is no map. -/
def checkLabel (scope : FieldScope) (start : Nat) (label : Option WrittenLabel) : Parser Unit := do
  match scope, label with
  | .oneof, some (_, span) => noteLate (.labelInOneof span)
  | .oneof, none => return
  | .extension, some (.required, span) => noteLate (.requiredExtension span)
  | _, some (.required, span) => outdated "required fields" span
  | _, some _ => return
  | _, none => if !(← get).proto3 then noteLate (.labelMissing ⟨start, start⟩)

/-- What is wrong with a map field for where it stands, or else with its having a label. -/
def checkMap (scope : FieldScope) (start : Nat) (label : Option WrittenLabel) : Parser Unit := do
  match scope, label with
  | .oneof, _ => noteLate (.mapInOneof ⟨start, start⟩)
  | .extension, _ => noteLate (.mapInExtension ⟨start, start⟩)
  | .message, some (_, span) => noteLate (.labelOnMap span)
  | .message, none => return

/-- Whether an option has the given name, which is that of no extension and has no further parts. -/
def Assignment.isNamed (name : String) (a : Assignment) : Bool :=
  match a.name with
  | [⟨first, false⟩] => first = name
  | _ => false

/-- The first option with a name, and the others. -/
def takeNamed (name : String) (as : List Assignment) : Option Assignment × List Assignment :=
  (as.find? (·.isNamed name), as.eraseP (·.isNamed name))

/-- What stands behind the name of a field. The default and the name in text form are no options in
the end; where either is set twice, only the first counts as that. -/
structure FieldEnd where
  number : WrittenNumber
  default? : Option Assignment := none
  jsonName? : Option Assignment := none
  options : List Assignment := []

def FieldEnd.ofOptions (number : WrittenNumber) (options : List Assignment) : FieldEnd :=
  let (default?, rest) := takeNamed "default" options
  let (jsonName?, rest) := takeNamed "json_name" rest
  { number, default?, jsonName?, options := rest }

/-- Notes that fields of a sort have no default, where the field has one. -/
def FieldEnd.refuseDefault (sort : String) (e : FieldEnd) : Parser Unit := do
  if let some a := e.default? then noteLate (.needlessDefault sort a.span)

/-- What is wrong with the number of a field, and then with its having a default. -/
def FieldEnd.check (isMap : Bool) (label : Option WrittenLabel) (e : FieldEnd) : Parser Unit := do
  Numbers.ofMessage.check e.number
  if isMap then e.refuseDefault "map"
  else if label.any (·.1 = .repeated) then e.refuseDefault "repeated"
  else if (← get).proto3 then
    if let some a := e.default? then noteLate (.outdatedDefault a.span)

/-- The number and the options of a field, in front of `closing`. -/
def fieldEnd (path : List Int32) (closing : Char) : Parser FieldEnd := do
  expectMark '='
  let number ← integer
  mark (path ++ [3]) number.2
  if ← looksAt (.mark '[') then
    let (options, span) ← bracketedOptions
    mark (path ++ [8]) span
    return .ofOptions number options
  else if ← looksAt (.mark closing) then return { number }
  else unexpected (alternatives ["'" ++ String.singleton closing ++ "'", "'['"])

/-- The field with its options. The value of its default is checked first, and its name in text form
before the other options, which are counted without these two. -/
def withOptions (path : List Int32) (e : FieldEnd) (d : FieldDecl) : Parser FieldDecl := do
  let defaultValue ← match e.default? with
    | some a => do
      mark (path ++ [7]) a.valueSpan
      checked none ((a.value.default d.type a.valueSpan).map some)
    | none => pure none
  let jsonName ← match e.jsonName? with
    | some a => do
      mark (path ++ [10]) a.span
      mark (path ++ [10]) a.valueSpan
      pure (some (← checked "" (a.value.string a.valueSpan)))
    | none => pure none
  e.options.zipIdx.forM fun (a, i) => mark (optionPath (path ++ [8]) i) a.span
  return { d with defaultValue, jsonName, options := ← held "FieldOptions" e.options }

/-- The type of a field: a scalar, or the name of a type. -/
def fieldType (path : List Int32) : Parser (Option FieldType × Option String) := do
  match ← peek? with
  | some (.word s) =>
    match scalarNames.lookup s with
    | some k =>
      let start ← here
      advance
      mark (path ++ [5]) (← since start)
      return (some (.scalar k), none)
    | none =>
      let (name, span) ← typeName [.word]
      mark (path ++ [6]) span
      return (none, some name)
  | some (.mark '.') =>
    let (name, span) ← typeName [.word]
    mark (path ++ [6]) span
    return (none, some name)
  | _ => unexpected "a field type"

/-- The type of a part of a map, in front of `closing`. -/
def partType (closing : Char) : Parser (Option FieldType × Option String) := do
  match ← peek? with
  | some (.word s) =>
    match scalarNames.lookup s with
    | some k =>
      advance
      return (some (.scalar k), none)
    | none =>
      let (name, _) ← typeName [.mark closing]
      return (none, some name)
  | some (.mark '.') =>
    let (name, _) ← typeName [.mark closing]
    return (none, some name)
  | _ => unexpected "a field type"

/-- Integers, booleans and strings can be the keys of a map. -/
def isKeyType : Option FieldType → Bool
  | some (.scalar k) => k ∉ [.double, .float, .bytes]
  | _ => false

/-- A part of the entries of a map. -/
def entryField (name : String) (number : Int32) (type : Option FieldType × Option String) :
    FieldDecl :=
  { name, number, type := type.1, typeName := type.2 }

/-- The options of a message whose values are the entries of a map. -/
def entryOptions : Message :=
  ((Draft.of "MessageOptions").flag? 7 (some true)).slots

def mapField (scope : FieldScope) (start : Nat) (path : List Int32) (label : Option WrittenLabel) :
    Parser Parsed := do
  let typeStart ← here
  expectWord "map"
  expectMark '<'
  let keyStart ← here
  let key ← partType ','
  let keySpan ← since keyStart
  expectMark ','
  let value ← partType '>'
  expectMark '>'
  mark (path ++ [6]) (← since typeStart)
  let (name, span) ← identifier
  mark (path ++ [1]) span
  let e ← fieldEnd path ';'
  e.check true label
  checkMap scope start label
  if !isKeyType key.1 then noteLate (.mapKey keySpan)
  let field ← withOptions path e
    { name, number := Int32.ofInt e.number.1, label := .repeated, type := some .message
      typeName := some (entryName name) }
  let comments ← endDeclaration ';'
  mark path (← since start) comments
  return {
    field
    nested := some
      { name := entryName name
        fields := [entryField "key" 1 key, entryField "value" 2 value]
        options := some entryOptions } }

/-- The name of a group, which starts with a capital letter. -/
def groupName : Parser (String × Span) := do
  if let ⟨.word s, span, _, _⟩ :: _ := (← get).lexemes then
    if !s.toList.head?.any Char.isUpper then note (.form span)
  identifier

/-- A group: a field, and the message that its values have. `nestedPath` is where that stands. -/
def groupField (body : BodyReader) (scope : FieldScope) (start : Nat)
    (path nestedPath : List Int32) (label : Option WrittenLabel) : Parser Parsed := do
  let typeStart ← here
  expectWord "group"
  let typeSpan ← since typeStart
  mark (path ++ [5]) typeSpan
  let (name, span) ← groupName
  mark (path ++ [1]) span
  mark (path ++ [6]) span
  mark (nestedPath ++ [1]) span
  let e ← fieldEnd path '\x7b'
  e.check false label
  checkLabel scope start label
  outdated "groups" ⟨start, typeSpan.stop⟩
  e.refuseDefault "group"
  let comments ← endDeclaration '\x7b'
  let nested ← body nestedPath name
  let field ← withOptions path e
    { name := name.map Char.toLower, number := Int32.ofInt e.number.1
      label := (label.map (·.1)).getD .optional, type := some .group, typeName := some name }
  let span ← since start
  mark path span
  mark nestedPath span comments
  return ⟨field, some nested⟩

/-- The label of the field at a path, if it has one. -/
def label? (path : List Int32) : Parser (Option WrittenLabel) := do
  let start ← here
  match ← peek? with
  | some (.word s) =>
    match labels.lookup s with
    | some label =>
      advance
      let span ← since start
      mark (path ++ [4]) span
      return some (label, span)
    | none => return none
  | _ => return none

/-- A field that is neither a map nor a group. -/
def plainField (scope : FieldScope) (start : Nat) (path : List Int32)
    (label : Option WrittenLabel) : Parser Parsed := do
  let (type, typeName) ← fieldType path
  let (name, span) ← identifier
  mark (path ++ [1]) span
  let e ← fieldEnd path ';'
  e.check false label
  checkLabel scope start label
  let written := label.map (·.1)
  let explicitOptional := (← get).proto3 && written = some .optional
  let field ← withOptions path e
    { name, number := Int32.ofInt e.number.1, label := written.getD .optional, type, typeName
      explicitOptional }
  let comments ← endDeclaration ';'
  mark path (← since start) comments
  return { field }

/-- A field of a message or of a oneof, or an extension. What is wrong with its number is told
first, then that it must not have a default, then what is wrong with the field for where it stands,
and what is wrong with its options last. -/
def field (body : BodyReader) (scope : FieldScope) (path nestedPath : List Int32)
    (extendee : Option String) (oneofIndex : Option Int32) : Parser Parsed := do
  let start ← here
  let label ← label? path
  let p ←
    if ← looksAt (.word "map") then mapField scope start path label
    else if ← looksAt (.word "group") then groupField body scope start path nestedPath label
    else plainField scope start path label
  return { p with field := { p.field with extendee, oneofIndex } }

end DescriptorKit.Language.Parser
