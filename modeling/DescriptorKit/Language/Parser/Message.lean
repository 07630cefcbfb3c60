import DescriptorKit.Language.Parser.Enum
import DescriptorKit.Language.Parser.Field

/-!
Messages and what stands in them: fields, oneofs, nested types, extensions, and the numbers that
others may extend them by.
-/
namespace DescriptorKit.Language.Parser

/-- A message that is being read, with what can only be settled at its end. -/
structure MessageBody where
  decl : MessageDecl
  options : List Assignment := []
  /-- Ranges that are left to extensions, with their options. -/
  extensible : List (WrittenRange × List Assignment) := []
  reserved : Reserved := {}

namespace MessageBody

def addField (b : MessageBody) (p : Parsed) : MessageBody :=
  { b with
    decl :=
      { b.decl with
        fields := b.decl.fields ++ [p.field]
        nested := b.decl.nested ++ p.nested.toList } }

def addExtensions (b : MessageBody) (ps : List Parsed) : MessageBody :=
  { b with
    decl :=
      { b.decl with
        extensions := b.decl.extensions ++ ps.map (·.field)
        nested := b.decl.nested ++ ps.filterMap (·.nested) } }

/-- The name of the oneof that an optional field has for its own. -/
def ownOneofName (name : String) : String :=
  if name.toList.head? = some '_' then "X" ++ name else "_" ++ name

/-- Gives each optional field that tells its presence a oneof of its own, behind those declared. -/
def withOwnOneofs (m : MessageDecl) : MessageDecl :=
  m.fields.foldl
    (fun m d =>
      if d.explicitOptional then
        { m with
          fields := m.fields ++ [{ d with oneofIndex := some (Int32.ofNat m.oneofs.length) }]
          oneofs := m.oneofs ++ [{ name := ownOneofName d.name }] }
      else { m with fields := m.fields ++ [d] })
    { m with fields := [] }

/-- Whether an option says that the message holds others by their number. -/
def holdsOthers (b : MessageBody) : Bool :=
  b.options.any fun a =>
    match a.option with
    | .ok o => o.nameText = "message_set_wire_format" && o.valueText = "true"
    | .error _ => false

/-- The message when it has been read. What it reserves is checked first, then what it leaves to
extensions, the options of a range before its bounds, and its own options last. -/
def finish (b : MessageBody) : Parser MessageDecl := do
  b.reserved.check .ofMessage
  let extensionRanges ← b.extensible.mapM fun (r, as) => do
    let options ← held "ExtensionRangeOptions" as
    r.check .ofMessage
    return { r.ofMessage b.holdsOthers with options }
  return {
    withOwnOneofs b.decl with
    options := ← held "MessageOptions" b.options
    extensionRanges
    reservedRanges := b.reserved.ranges.map (·.ofMessage b.holdsOthers)
    reservedNames := b.reserved.names }

end MessageBody

/-- An `extend` block. Extensions are elements of field `field` of what stands at `path`, messages
of groups of field `nestedField`; the numbers of those before are given. -/
def extend (body : BodyReader) (path : List Int32) (field nestedField : Int32)
    (index nestedIndex : Nat) : Parser (List Parsed) := do
  let start ← here
  expectWord "extend"
  let (extendee, extendeeSpan) ← typeName [.mark '\x7b']
  let comments ← endDeclaration '\x7b'
  let ps ← repeatedly (fun ps => do
    match ← peek? with
    | some (.mark ';') =>
      emptyStatement
      return some ps
    | some (.mark '\x7d') => return none
    | some (.word _) | some (.mark '.') =>
      let at_ := MessageDecl.childPath path field (index + ps.length)
      let nestedAt :=
        MessageDecl.childPath path nestedField (nestedIndex + (ps.filterMap (·.nested)).length)
      mark (at_ ++ [2]) extendeeSpan
      let p ← Parser.field body .extension at_ nestedAt (some extendee) none
      return some (ps ++ [p])
    | _ => unexpected "a message field, '\x7d' or ';'") ([] : List Parsed)
  closeScope
  mark (path ++ [field]) (← since start) comments
  return ps

/-- A oneof of the message at `path`, with the message that has its fields. Its options are checked
before its fields. -/
def oneof (body : BodyReader) (path : List Int32) (b : MessageBody) : Parser MessageBody := do
  let start ← here
  let index := b.decl.oneofs.length
  let at_ := MessageDecl.childPath path 8 index
  expectWord "oneof"
  let (name, span) ← identifier
  mark (at_ ++ [1]) span
  let comments ← endDeclaration '\x7b'
  let before := b.decl.fields.length
  let ((b, options), own) ← apart <| repeatedly (fun (b, os) => do
    match ← peek? with
    | some (.mark ';') =>
      emptyStatement
      return some (b, os)
    | some (.mark '\x7d') => return none
    | some (.word "option") =>
      let o ← optionStatement (at_ ++ [2]) os.length
      return some (b, os ++ [o])
    | some (.word _) | some (.mark '.') =>
      let p ← field body .oneof (MessageDecl.childPath path 2 b.decl.fields.length)
        (MessageDecl.childPath path 3 b.decl.nested.length)
        none (some (Int32.ofNat index))
      return some (b.addField p, os)
    | _ => unexpected "a message field, option or '\x7d'") (b, ([] : List Assignment))
  closeScope
  mark at_ (← since start) comments
  let decl : OneofDecl := { name, options := ← held "OneofOptions" options }
  if b.decl.fields.length = before then noteLate (.emptyOneof (← since start))
  noteApart own
  return { b with decl := { b.decl with oneofs := b.decl.oneofs ++ [decl] } }

/-- An `extensions` statement of the message at `path`. -/
def extensionRanges (path : List Int32) (index : Nat) :
    Parser (List (WrittenRange × List Assignment)) := do
  let start ← here
  expectWord "extensions"
  let rs ← ranges [.mark ';', .mark '['] path 5 index
  let options ←
    if ← looksAt (.mark '[') then
      let (as, span) ← bracketedOptions
      rs.zipIdx.forM fun (_, i) => do
        let at_ := MessageDecl.childPath path 5 (index + i) ++ [3]
        mark at_ span
        as.zipIdx.forM fun (a, j) => mark (optionPath at_ j) a.span
      pure as
    else pure []
  let comments ← endDeclaration ';'
  mark (path ++ [5]) (← since start) comments
  return rs.map fun r => (r, options)

/-- A message with its head. -/
def message (body : BodyReader) (path : List Int32) : Parser MessageDecl := do
  let start ← here
  expectWord "message"
  let (name, span) ← identifier
  mark (path ++ [1]) span
  let comments ← endDeclaration '\x7b'
  let m ← body path name
  mark path (← since start) comments
  return m

/-- One statement of the message at `path`, unless it ends here. -/
def messageStatement (body : BodyReader) (path : List Int32) (b : MessageBody) :
    Parser (Option MessageBody) := do
  let d := b.decl
  match ← peek? with
  | some (.mark ';') =>
    emptyStatement
    return some b
  | some (.mark '\x7d') => return none
  | some (.word "message") =>
    let m ← message body (MessageDecl.childPath path 3 d.nested.length)
    return some { b with decl := { d with nested := d.nested ++ [m] } }
  | some (.word "enum") =>
    let e ← enum (MessageDecl.childPath path 4 d.enums.length)
    return some { b with decl := { d with enums := d.enums ++ [e] } }
  | some (.word "extend") =>
    return some (b.addExtensions (← extend body path 6 3 d.extensions.length d.nested.length))
  | some (.word "extensions") =>
    let rs ← extensionRanges path b.extensible.length
    return some { b with extensible := b.extensible ++ rs }
  | some (.word "oneof") => return some (← oneof body path b)
  | some (.word "option") =>
    let o ← optionStatement (path ++ [7]) b.options.length
    return some { b with options := b.options ++ [o] }
  | some (.word "reserved") =>
    return some { b with reserved := ← reserved path 9 10 b.reserved }
  | some (.word _) | some (.mark '.') =>
    let p ← field body .message (MessageDecl.childPath path 2 d.fields.length)
      (MessageDecl.childPath path 3 d.nested.length) none none
    return some (b.addField p)
  | _ => unexpected "a message field, oneof, reserved range, enum, message, option or '\x7d'"

/-- The body of a message with at most `depth` levels of messages in it, and its closing brace. -/
def messageBody : (depth : Nat) → BodyReader
  | 0, _, _ => unexpected "'\x7d'"
  | depth + 1, path, name => do
    let b ← repeatedly (messageStatement (messageBody depth) path) { decl := { name } }
    closeScope
    b.finish

end DescriptorKit.Language.Parser
