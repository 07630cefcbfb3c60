import DescriptorKit.Declaration.Basic

/-!
Short ways to write down declarations.
-/
namespace DescriptorKit.Bundled

/-- The type of a field: its kind, and the type it names. -/
abbrev FieldShape := FieldType × Option String

def text : FieldShape := (.scalar .string, none)
def flag : FieldShape := (.scalar .bool, none)
def int32 : FieldShape := (.scalar .int32, none)
def int64 : FieldShape := (.scalar .int64, none)
def uint32 : FieldShape := (.scalar .uint32, none)
def uint64 : FieldShape := (.scalar .uint64, none)
def double : FieldShape := (.scalar .double, none)
def float : FieldShape := (.scalar .float, none)
def bytes : FieldShape := (.scalar .bytes, none)

/-- A message or an enum of the package that all bundled files share. -/
def message (name : String) : FieldShape := (.message, some (".google.protobuf." ++ name))
def enum (name : String) : FieldShape := (.enum, some (".google.protobuf." ++ name))

def labelled (label : Label) (name : String) (number : Int32) (s : FieldShape) : FieldDecl :=
  { name, number, label, type := some s.1, typeName := s.2 }

def one : String → Int32 → FieldShape → FieldDecl := labelled .optional
def need : String → Int32 → FieldShape → FieldDecl := labelled .required
def many : String → Int32 → FieldShape → FieldDecl := labelled .repeated

def withDefault (d : FieldDecl) (value : String) : FieldDecl :=
  { d with defaultValue := some value }

def inOneof (d : FieldDecl) (index : Int32) : FieldDecl := { d with oneofIndex := some index }

/-- Values numbered from `start` on. -/
def numbered (start : Nat) (names : List String) : List EnumValueDecl :=
  names.zipIdx.map fun (name, i) => { name, number := Int32.ofNat (start + i) }

def textSlot (number : Nat) (name value : String) : Slot :=
  .known { number, name, kind := .scalar .string } (.scalar (.string value))

def flagSlot (number : Nat) (name : String) (value : Bool) : Slot :=
  .known { number, name, kind := .scalar .bool } (.scalar (.bool value))

/-- The options of a field that set whether its records are packed. -/
def packedOptions (packed : Bool) : Message := [flagSlot 2 "packed" packed]

def packed (d : FieldDecl) : FieldDecl := { d with options := some (packedOptions true) }

def deprecated (d : FieldDecl) : FieldDecl :=
  { d with options := some [flagSlot 3 "deprecated" true] }

/-- The options of a message whose values are the entries of a map. -/
def entryOptions : Message := [flagSlot 7 "map_entry" true]

/-- The numbers that custom options may take. -/
def customNumbers : List RangeDecl := [⟨1000, 536870912, none⟩]

def uninterpreted : FieldDecl := many "uninterpreted_option" 999 (message "UninterpretedOption")

end DescriptorKit.Bundled
