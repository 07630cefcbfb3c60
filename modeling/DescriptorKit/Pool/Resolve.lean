import DescriptorKit.Declaration.Basic
import DescriptorKit.Pool.Names
import DescriptorKit.Schema.OfDeclaration

/-!
Finding what the names in declarations stand for. A name with a leading dot is absolute; any other
is looked for in the scope it is used in, then in the scopes around that one. A file sees its own
declarations, those of the files it imports, and those of the files that these hand on themselves.
-/
namespace DescriptorKit.Pool

/-- What a file can refer to. -/
structure View where
  symbols : List Symbol
  /-- The files whose declarations are visible. -/
  visible : List String

/-- The public imports of a file. -/
def publicImports (files : List FileDecl) (name : String) : List String :=
  match files.find? (·.name = name) with
  | none => []
  | some f =>
    f.publicDependencies.filterMap fun p =>
      if 0 ≤ p.toInt then f.dependencies[p.toInt.toNat]? else none

/-- Adds a file to those that are visible. One that is visible before hands on what it imports
publicly; one that becomes visible does not. -/
def handOn (files : List FileDecl) : (fuel : Nat) → List String → String → List String
  | 0, visible, _ => visible
  | fuel + 1, visible, name =>
    if visible.contains name then (publicImports files name).foldl (handOn files fuel) visible
    else name :: visible

/-- What `f` can refer to, itself among `files`. Its imports become visible one after the other,
each together with what it hands on; a file that is handed on a second time hands on its own. -/
def view (symbols : List Symbol) (files : List FileDecl) (f : FileDecl) : View :=
  ⟨symbols, f.dependencies.foldl
    (fun visible name => handOn files (files.length + 1) (name :: visible) name) [f.name]⟩

/-- The outcome of looking for a full name. -/
inductive Lookup where
  | found (s : Symbol)
  | hidden
  | wrongSort (s : Symbol)
  | missing

/-- Why a name does not stand for what it should. -/
structure LookupFault where
  fault : Fault
  /-- Where something else of that name is declared. -/
  declared : Option Place := none

/-- Whether names can start with the name of something of the sort. -/
def SymbolSort.isScope : SymbolSort → Bool
  | .package | .message | .enum | .service => true
  | _ => false

namespace View

/-- A package is that of the file that names it first. -/
def sees (V : View) (s : Symbol) : Bool := V.visible.contains s.place.file

def lookup (V : View) (accepts : SymbolSort → Bool) (name : String) : Lookup :=
  match Names.find? V.symbols name with
  | none => .missing
  | some s =>
    if !V.sees s then .hidden
    else if accepts s.sort then .found s
    else .wrongSort s

/-- A scope and all scopes around it, the root last. -/
def scopes (scope : String) : List String :=
  if scope = "" then [""] else (Event.prefixes scope).reverse ++ [""]

def wrongSort (name expected : String) (s : Symbol) : LookupFault :=
  ⟨.wrongSort name expected, some s.place⟩

/-- Looks for a name without dots in each of the scopes. The first failure that is not a plain
absence is the one told. -/
def search (V : View) (accepts : SymbolSort → Bool) (name expected : String) :
    Option LookupFault → List String → Except LookupFault Symbol
  | fault, [] => .error (fault.getD ⟨.undefined name, none⟩)
  | fault, scope :: outer =>
    let full := qualify scope name
    match V.lookup accepts full with
    | .found s => .ok s
    | .hidden =>
      search V accepts name expected (fault <|> some ⟨.undefined full, none⟩) outer
    | .wrongSort s =>
      search V accepts name expected (fault <|> some (wrongSort full expected s)) outer
    | .missing => search V accepts name expected fault outer

/-- The innermost of the scopes that has something by the name of `first` in which names can
start, visible or not. -/
def anchor? (V : View) (first : String) (scopes : List String) : Option String :=
  scopes.find? fun scope =>
    match Names.find? V.symbols (qualify scope first) with
    | some s => s.sort.isScope
    | none => false

/-- The symbol with a full name; `missing` tells that there is none. -/
def member (V : View) (accepts : SymbolSort → Bool) (expected full : String) (missing : Fault) :
    Except LookupFault Symbol :=
  match V.lookup accepts full with
  | .found s => .ok s
  | .hidden => .error ⟨.undefined full, none⟩
  | .wrongSort s => .error (wrongSort full expected s)
  | .missing => .error ⟨missing, none⟩

/-- The symbol that a name stands for in a scope. Where it has dots, its first part decides on the
scope to look in; outside all scopes there is nothing to decide. -/
def resolve (V : View) (accepts : SymbolSort → Bool) (expected scope name : String) :
    Except LookupFault Symbol :=
  if name.toList.head? = some '.' ∨ scope = "" then
    V.member accepts expected (absolute name) (.undefined name)
  else
    match Text.splitAt '.' name with
    | first :: _ :: _ =>
      match V.anchor? first (scopes scope) with
      | none => .error ⟨.undefined name, none⟩
      | some scope =>
        let full := qualify scope name
        V.member accepts expected full (.shadowed name full)
    | _ => V.search accepts name expected none (scopes scope)

def isType (s : SymbolSort) : Bool := s = .message || s = .enum

def type (V : View) (scope name : String) : Except LookupFault Symbol :=
  V.resolve isType "a message or enum type" scope name

def message (V : View) (scope name : String) : Except LookupFault Symbol :=
  V.resolve (· = .message) "a message type" scope name

/-- The absolute form of a name, and the name itself where it stands for nothing. -/
def absoluteName (r : Except LookupFault Symbol) (name : String) : String :=
  match r with
  | .ok s => "." ++ s.name
  | .error _ => name

end View

/-- Numbers that no field may have: those out of range, and those kept for other uses. -/
def badFieldNumber (n : Int32) : Bool :=
  n.toInt < 1 || 536870911 < n.toInt || (19000 ≤ n.toInt && n.toInt ≤ 19999)

/-- What is wrong with looking a name up, at a declaration. -/
def lookupFindings (file : String) (path : List Int32) (r : Except LookupFault Symbol) :
    List Finding :=
  match r with
  | .ok _ => []
  | .error f => [⟨f.fault, f.declared.toList ++ [⟨file, path⟩]⟩]

/-- The first of some ranges that holds a number, and its index. -/
def holding? (ranges : List RangeDecl) (n : Int32) : Option (RangeDecl × Nat) :=
  ranges.zipIdx.find? fun (r, _) => r.start ≤ n && n < r.stop

/-- A message among those of a set of files. -/
structure MessagePlace where
  file : String
  site : MessageSite

/-- What is wrong with the number of a field in a message, which may be the one it extends: the
number is none at all, or the message keeps it for something else, or does not leave it to
extensions. -/
def numberFindings (m : MessagePlace) (file : String) (path : List Int32) (d : FieldDecl) :
    List Finding :=
  let number := d.number.toInt
  let here : Place := ⟨file, path ++ [3]⟩
  let range (field : Int32) (j : Nat) : Place :=
    ⟨m.file, MessageDecl.childPath m.site.path field j⟩
  let decl := m.site.decl
  (if badFieldNumber d.number then [⟨.fieldNumber number, [here]⟩] else []) ++
    (match holding? decl.reservedRanges d.number with
      | none => []
      | some (r, j) =>
        [⟨.reservedNumber number r.start.toInt (r.stop.toInt - 1), [range 9 j, here]⟩]) ++
    match d.extendee, holding? decl.extensionRanges d.number with
    | none, some (r, j) =>
      [⟨.extensibleNumber number r.start.toInt (r.stop.toInt - 1), [range 5 j, here]⟩]
    | some _, none => [⟨.extensionNumber m.site.fullName number, [here]⟩]
    | _, _ => []

/-- Whether a text spells a default of a type, and how a message calls the type. `C` knows all
enums. -/
def defaultKind (C : Schema.Context) (kind : Kind) (text : String) : Bool × String :=
  match kind with
  | .scalar k => ((Text.Literal.scalarOf? k text).isSome, k.name)
  | .enum type => ((Schema.defaultOf C kind text).isSome, type)
  | .message _ | .group _ => (false, "message type")

/-- What is wrong with the type and the default of a field or extension. -/
def typeFindings (V : View) (C : Schema.Context) (file scope : String) (path : List Int32)
    (d : FieldDecl) : List Finding :=
  let default (kind : Kind) : List Finding :=
    match d.defaultValue with
    | none => []
    | some text =>
      let (ok, type) := defaultKind C kind text
      if ok then [] else [⟨.defaultValue text type, [⟨file, path ++ [7]⟩]⟩]
  match d.typeName.getD "", d.type with
  | "", some (.scalar k) => default (.scalar k)
  | "", none => default (.scalar .double)
  | "", some _ => [⟨.incomplete (path ++ [6]), [⟨file, path ++ [6]⟩]⟩]
  | name, _ =>
    match V.type scope name with
    | .error f => lookupFindings file (path ++ [6]) (.error f)
    | .ok s => default (if s.sort = .enum then .enum s.name else .message s.name)

/-- A field with a number that an earlier field of the message has. -/
def sameNumber (file : String) (path : List Int32) (m : MessageDecl) (d : FieldDecl)
    (index : Nat) : List Finding :=
  let place (i : Nat) : Place := ⟨file, MessageDecl.childPath path 2 i ++ [3]⟩
  match (m.fields.take index).zipIdx.find? (·.1.number = d.number) with
  | none => []
  | some (_, j) => [⟨.fieldNumberTwice d.number.toInt, [place j, place index]⟩]

/-- A field with the name in the text form of objects that an earlier field of the message has. -/
def sameJsonName (file : String) (path : List Int32) (m : MessageDecl) (d : FieldDecl)
    (index : Nat) : List Finding :=
  let place (i : Nat) : Place := ⟨file, MessageDecl.childPath path 2 i ++ [1]⟩
  match (m.fields.take index).zipIdx.find? (·.1.objectName = d.objectName) with
  | none => []
  | some (_, j) => [⟨.jsonName (d.jsonName.getD ""), [place j, place index]⟩]

def oneofFindings (m : MessageDecl) (d : FieldDecl) : List Finding :=
  match d.oneofIndex with
  | none => []
  | some i =>
    if 0 ≤ i.toInt && i.toInt.toNat < m.oneofs.length then [] else [⟨.oneofIndex, []⟩]

/-- What is wrong with an extension: with what it extends, and with its number there. -/
def extensionFindings (V : View) (C : Schema.Context) (messages : List MessagePlace)
    (file scope : String) (path : List Int32) (d : FieldDecl) : List Finding :=
  let extendee := V.message scope (d.extendee.getD "")
  let numbers := match extendee with
    | .error _ => []
    | .ok s =>
      match messages.find? (·.site.fullName = s.name) with
      | none => []
      | some m => numberFindings m file path d
  lookupFindings file (path ++ [2]) extendee ++ numbers ++ typeFindings V C file scope path d

/-- Whether the values of an enum may share numbers. -/
def allowsAlias (e : EnumDecl) : Bool :=
  match e.options with
  | none => false
  | some m =>
    (m.boolAt? 2).getD false ||
      (m.messagesAt 999).any fun u =>
        (u.messagesAt 2).map (fun p => (p.textAt? 1, (p.boolAt? 2).getD false)) =
            [(some "allow_alias", false)] &&
          u.textAt? 3 = some "true"

/-- An enum value with a number that the enum reserves. -/
def reservedFindings (file : String) (path : List Int32) (e : EnumDecl) (v : EnumValueDecl)
    (index : Nat) : List Finding :=
  match e.reservedRanges.zipIdx.find? fun (r, _) => r.start ≤ v.number && v.number ≤ r.stop with
  | none => []
  | some (r, j) =>
    [⟨.reservedEnumNumber v.number.toInt r.start.toInt r.stop.toInt,
      [⟨file, MessageDecl.childPath path 4 j⟩, ⟨file, MessageDecl.childPath path 2 index ++ [3]⟩]⟩]

/-- An enum value with the number of an earlier one. -/
def aliasFindings (file : String) (path : List Int32) (values : List EnumValueDecl)
    (v : EnumValueDecl) (index : Nat) : List Finding :=
  let place (i : Nat) : Place := ⟨file, MessageDecl.childPath path 2 i ++ [2]⟩
  match (values.take index).zipIdx.find? (·.1.number = v.number) with
  | none => []
  | some (_, j) => [⟨.enumNumberTwice v.number.toInt, [place j, place index]⟩]

def enumFindings (file : String) (path : List Int32) (e : EnumDecl) : List Finding :=
  e.values.zipIdx.flatMap fun (v, i) =>
    reservedFindings file path e v i ++
      if allowsAlias e then [] else aliasFindings file path e.values v i

/-- What is wrong with the parts of a message, those of messages nested in it left out. -/
def fieldFindings (V : View) (C : Schema.Context) (file fullName : String) (path : List Int32)
    (m : MessageDecl) : List Finding :=
  m.fields.zipIdx.flatMap fun (d, i) =>
    let here := MessageDecl.childPath path 2 i
    numberFindings ⟨file, ⟨path, fullName, m⟩⟩ file here d ++
      typeFindings V C file fullName here d ++ oneofFindings m d ++ sameNumber file path m d i ++
      sameJsonName file path m d i

mutual

def messageFindings (V : View) (C : Schema.Context) (messages : List MessagePlace)
    (file scope : String) (path : List Int32) : MessageDecl → List Finding
  | m@⟨name, _, nested, enums, _, extensions, _, _, _, _⟩ =>
    let inner := qualify scope name
    fieldFindings V C file inner path m ++
      nestedFindings V C messages file inner path 3 0 nested ++
      (enums.zipIdx.flatMap fun (e, i) =>
        enumFindings file (MessageDecl.childPath path 4 i) e) ++
      extensions.zipIdx.flatMap fun (d, i) =>
        extensionFindings V C messages file inner (MessageDecl.childPath path 6 i) d

def nestedFindings (V : View) (C : Schema.Context) (messages : List MessagePlace)
    (file scope : String) (path : List Int32) (field : Int32) (index : Nat) :
    List MessageDecl → List Finding
  | [] => []
  | m :: rest =>
    messageFindings V C messages file scope (MessageDecl.childPath path field index) m ++
      nestedFindings V C messages file scope path field (index + 1) rest

end

/-- Import indexes that are those of no import. -/
def importFindings (files : List FileDecl) (f : FileDecl) : List Finding :=
  (f.dependencies.zipIdx.filterMap fun (d, i) =>
    if files.any (·.name = d) then none
    else some ⟨.importMissing d, [⟨f.name, MessageDecl.childPath [] 3 i⟩]⟩) ++
  (f.publicDependencies ++ f.weakDependencies).filterMap fun p =>
    if 0 ≤ p.toInt && p.toInt.toNat < f.dependencies.length then none else some ⟨.importIndex, []⟩

def methodFindings (V : View) (file scope : String) (path : List Int32) (m : MethodDecl) :
    List Finding :=
  lookupFindings file (path ++ [2]) (V.message scope m.input) ++
    lookupFindings file (path ++ [3]) (V.message scope m.output)

/-- What is wrong with a file among `files`, in the order of its declarations. -/
def fileFindings (symbols : List Symbol) (files : List FileDecl) (C : Schema.Context)
    (messages : List MessagePlace) (f : FileDecl) : List Finding :=
  let V := view symbols files f
  importFindings files f ++
    nestedFindings V C messages f.name f.scope [] 4 0 f.messages ++
    (f.enums.zipIdx.flatMap fun (e, i) =>
      enumFindings f.name (MessageDecl.childPath [] 5 i) e) ++
    (f.services.zipIdx.flatMap fun (s, i) =>
      s.methods.zipIdx.flatMap fun (m, j) =>
        methodFindings V f.name (qualify f.scope s.name)
          (MessageDecl.childPath (MessageDecl.childPath [] 6 i) 2 j) m) ++
    f.extensions.zipIdx.flatMap fun (d, i) =>
      extensionFindings V C messages f.name f.scope (MessageDecl.childPath [] 7 i) d

/-- The type that a name is found to stand for. -/
def View.sortOf? (V : View) (scope name : String) : Option FieldType :=
  match V.type scope name with
  | .ok s => some (if s.sort = .enum then .enum else .message)
  | .error _ => none

/-- The field with absolute names and a name in the text form of objects. A type that is not
declared is the one its name stands for. -/
def resolveField (V : View) (scope : String) (d : FieldDecl) : FieldDecl :=
  { d with
    type := d.type <|> d.typeName.bind (V.sortOf? scope)
    typeName := d.typeName.map fun n => View.absoluteName (V.type scope n) n
    extendee := d.extendee.map fun n => View.absoluteName (V.message scope n) n
    jsonName := some d.objectName }

mutual

def resolveMessage (V : View) (scope : String) : MessageDecl → MessageDecl
  | ⟨name, fields, nested, enums, ranges, extensions, options, oneofs, reserved, names⟩ =>
    let inner := qualify scope name
    ⟨name, fields.map (resolveField V inner), resolveMessages V inner nested, enums, ranges,
      extensions.map (resolveField V inner), options, oneofs, reserved, names⟩

def resolveMessages (V : View) (scope : String) : List MessageDecl → List MessageDecl
  | [] => []
  | m :: rest => resolveMessage V scope m :: resolveMessages V scope rest

end

def resolveMethod (V : View) (scope : String) (m : MethodDecl) : MethodDecl :=
  { m with
    input := View.absoluteName (V.message scope m.input) m.input
    output := View.absoluteName (V.message scope m.output) m.output }

/-- The file with absolute names. -/
def resolveFile (V : View) (f : FileDecl) : FileDecl :=
  { f with
    messages := resolveMessages V f.scope f.messages
    extensions := f.extensions.map (resolveField V f.scope)
    services := f.services.map fun s =>
      { s with methods := s.methods.map (resolveMethod V (qualify f.scope s.name)) } }

end DescriptorKit.Pool
