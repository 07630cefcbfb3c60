import DescriptorKit.Declaration.Written
import DescriptorKit.Message.Decode
import DescriptorKit.Message.Encode
import DescriptorKit.Pool.Resolve
import DescriptorKit.Text.Format.Message

/-!
Reading options that stand as written in a source. Once the extensions they name can be looked up,
they become fields of the options they are given in.
-/
namespace DescriptorKit.Pool

/-- Where options are read: the schema of the pool, and what the file that sets them can see. -/
structure OptionContext where
  schema : Schema
  view : View

namespace OptionContext

/-- The extension that a name stands for in a scope. -/
def extension (C : OptionContext) (scope name : String) : Except LookupFault Extension :=
  match C.view.resolve (· = .extension) "an extension" scope name with
  | .error f => .error f
  | .ok s =>
    match C.schema.extensionNamed? s.name with
    | some e => .ok e
    | none => .error ⟨.undefined name, none⟩

/-- The field of a message type that the last part of an option name stands for; `option` is the
name up to there. -/
def field (C : OptionContext) (scope : String) (t : MessageType) (option : String) (p : NamePart) :
    Except LookupFault Field :=
  if p.isExtension then
    match C.extension scope p.name with
    | .error f => .error f
    | .ok e =>
      if e.extendee = t.name then .ok e.field
      else .error ⟨.optionExtendee t.name e.name e.extendee, none⟩
  else
    match t.fieldNamed? p.name with
    | some f => .ok f
    | none => .error ⟨.optionField option, none⟩

/-- The type of a field as a message about it gives it. -/
def typeText (C : OptionContext) (f : Field) : String :=
  match f.map, (C.schema.messageOf? f).map (·.fields) with
  | true, some [key, value] => "map<" ++ key.kind.text ++ ", " ++ value.kind.text ++ ">"
  | _, _ => if f.repeated then "repeated " ++ f.kind.text else f.kind.text

/-- The scalar value of a kind that an option writes. Of the values it has, those of another sort do
not count. -/
def scalar? (k : ScalarKind) (o : WrittenOption) : Option Scalar :=
  match k with
  | .double => o.double?.map .double
  | .float => o.double?.map fun bits => .float (Float.ofBits bits).toFloat32.toBits
  | .bool =>
    match o.word? with
    | some "true" => some (.bool true)
    | some "false" => some (.bool false)
    | _ => none
  | .bytes => o.bytes?.map .bytes
  | .string => (o.bytes?.bind Bytes.text?).map .string
  | k => o.int?.bind k.ofInt?

/-- The value of a field as an option writes it. Braces that spell no message are a fault of their
own. -/
def value? (C : OptionContext) (f : Field) (o : WrittenOption) : Except Fault Value :=
  let wrong : Fault := .optionValue (C.typeText f) o.nameText o.valueText
  let scalar (s : Option Scalar) : Except Fault Value :=
    match s with
    | some s => .ok (.scalar s)
    | none => .error wrong
  match f.kind with
  | .scalar k =>
    scalar (scalar? k o)
  | .enum type =>
    scalar (o.word?.bind fun s =>
      (C.schema.enum? type).bind fun e => (e.values.find? (·.1 = s)).map fun v => .enum v.2)
  | .message type | .group type =>
    match o.braces?, C.schema.message? type with
    | some s, some t =>
      match Text.Format.message? C.schema t s with
      | some m => .ok (.message m)
      | none => .error (.optionMessage (C.typeText f) o.nameText)
    | _, _ => .error wrong

/-- Sets what the rest of an option name leads to; `before` are the parts in front of it. Also gives
the numbers on the way there, with an index behind that of a repeated field which is no map. -/
def setPart (C : OptionContext) (scope : String) (o : WrittenOption) (before : List NamePart) :
    List NamePart → MessageType → Message → Except LookupFault (Message × List Int32)
  | [], _, m => .ok (m, [])
  | p :: rest, t, m =>
    let name := NamePart.text (before ++ [p])
    match C.field scope t name p with
    | .error fault => .error fault
    | .ok f =>
      let number := Int32.ofNat f.number
      match rest with
      | [] =>
        match !f.repeated && (m.get? f).isSome, C.value? f o with
        | true, _ => .error ⟨.optionTwice name, none⟩
        | false, .error fault => .error ⟨fault, none⟩
        | false, .ok v =>
          let index := Int32.ofNat (m.valuesOf f).length
          .ok (m.add C.schema f v, if f.repeated && !f.map then [number, index] else [number])
      | _ :: _ =>
        match f.repeated, C.schema.messageOf? f with
        | false, some inner =>
          match setPart C scope o (before ++ [p]) rest inner
              (((m.get? f).bind Value.message?).getD []) with
          | .error fault => .error fault
          | .ok (v, path) => .ok (m.set f (.message v), number :: path)
        | _, _ => .error ⟨.optionHost name (C.typeText f), none⟩

end OptionContext

/-- What reading options found wrong, the last finding first, and where each option stands once it
is read: the path it was written under, and the path it has as a field. -/
structure OptionNotes where
  findings : List Finding := []
  moves : List (List Int32 × List Int32) := []

abbrev OptionReader := StateM OptionNotes

namespace OptionReader

/-- Sets the written options one after the other. -/
def setAll (C : OptionContext) (scope file : String) (path : List Int32) (t : MessageType) :
    Message → List (WrittenOption × Nat) → OptionReader Message
  | m, [] => pure m
  | m, (o, i) :: rest => do
    let written := path ++ [999, Int32.ofNat i]
    match C.setPart scope o [] o.name t m with
    | .error f =>
      let places := f.declared.toList ++ [⟨file, written⟩]
      modify fun n => { n with findings := ⟨f.fault, places⟩ :: n.findings }
      setAll C scope file path t m rest
    | .ok (m, numbers) =>
      modify fun n => { n with moves := (written, path ++ numbers) :: n.moves }
      setAll C scope file path t m rest

/-- Reads the options at `path`, of the message type with the given short name. Those written stand
among the others until all are set; a type that does not declare them keeps them. -/
def read (C : OptionContext) (scope file type : String) (path : List Int32) :
    Option Message → OptionReader (Option Message)
  | none => pure none
  | some given => do
    let full := "google.protobuf." ++ type
    let schema := if (C.schema.message? full).isSome then C.schema else Bundled.descriptorSchema
    match schema.message? full with
    | none => pure (some given)
    | some t =>
      match Message.decode schema .lossless t given.encode with
      | .error _ => do
        modify fun n => { n with findings := ⟨.options, []⟩ :: n.findings }
        pure (some given)
      | .ok m => do
        let written := ((given.messagesAt 999).map WrittenOption.ofMessage).zipIdx
        let C : OptionContext := if (C.schema.message? full).isSome then C else
          { C with schema :=
              { messages := C.schema.messages ++ schema.messages
                enums := C.schema.enums ++ schema.enums
                extensions := C.schema.extensions } }
        let m ← setAll C scope file path t m written
        match t.fieldNumbered? WrittenOption.number with
        | some f => pure (some (m.erase f))
        | none => pure (some m)

/-- Reads what belongs to each element of a repeated field. -/
def each {α : Type} (path : List Int32) (field : Int32) (items : List α)
    (f : List Int32 → α → OptionReader α) : OptionReader (List α) :=
  items.zipIdx.mapM fun (a, i) => f (MessageDecl.childPath path field i) a

def readField (C : OptionContext) (scope file : String) (path : List Int32) (d : FieldDecl) :
    OptionReader FieldDecl := do
  let options ← read C scope file "FieldOptions" (path ++ [8]) d.options
  pure { d with options }

def readEnum (C : OptionContext) (scope file : String) (path : List Int32) (e : EnumDecl) :
    OptionReader EnumDecl := do
  let options ← read C (qualify scope e.name) file "EnumOptions" (path ++ [3]) e.options
  let values ← each path 2 e.values fun path v => do
    let options ← read C scope file "EnumValueOptions" (path ++ [3]) v.options
    pure { v with options }
  pure { e with options, values }

def readRange (C : OptionContext) (scope file : String) (path : List Int32) (r : RangeDecl) :
    OptionReader RangeDecl := do
  let options ← read C scope file "ExtensionRangeOptions" (path ++ [3]) r.options
  pure { r with options }

mutual

def readMessage (C : OptionContext) (scope file : String) (path : List Int32) :
    MessageDecl → OptionReader MessageDecl
  | ⟨name, fields, nested, enums, ranges, extensions, options, oneofs, reserved, names⟩ => do
    let inner := qualify scope name
    let options ← read C inner file "MessageOptions" (path ++ [7]) options
    let ranges ← each path 5 ranges (readRange C inner file)
    let oneofs ← each path 8 oneofs fun path o => do
      let options ← read C inner file "OneofOptions" (path ++ [2]) o.options
      pure { o with options }
    let fields ← each path 2 fields (readField C inner file)
    let nested ← readMessages C inner file path 3 0 nested
    let enums ← each path 4 enums (readEnum C inner file)
    let extensions ← each path 6 extensions (readField C inner file)
    pure ⟨name, fields, nested, enums, ranges, extensions, options, oneofs, reserved, names⟩

def readMessages (C : OptionContext) (scope file : String) (path : List Int32) (field : Int32)
    (index : Nat) : List MessageDecl → OptionReader (List MessageDecl)
  | [] => pure []
  | m :: rest => do
    let m ← readMessage C scope file (MessageDecl.childPath path field index) m
    let rest ← readMessages C scope file path field (index + 1) rest
    pure (m :: rest)

end

def readService (C : OptionContext) (scope file : String) (path : List Int32) (s : ServiceDecl) :
    OptionReader ServiceDecl := do
  let inner := qualify scope s.name
  let options ← read C inner file "ServiceOptions" (path ++ [3]) s.options
  let methods ← each path 2 s.methods fun path m => do
    let options ← read C inner file "MethodOptions" (path ++ [4]) m.options
    pure { m with options }
  pure { s with options, methods }

/-- Reads all options of a file. -/
def readFile (C : OptionContext) (f : FileDecl) : OptionReader FileDecl := do
  let options ← read C f.scope f.name "FileOptions" [8] f.options
  let messages ← readMessages C f.scope f.name [] 4 0 f.messages
  let enums ← each [] 5 f.enums (readEnum C f.scope f.name)
  let services ← each [] 6 f.services (readService C f.scope f.name)
  let extensions ← each [] 7 f.extensions (readField C f.scope f.name)
  pure { f with options, messages, enums, extensions, services }

end OptionReader
end DescriptorKit.Pool
