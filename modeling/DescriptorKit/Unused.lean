import DescriptorKit.Descriptor
import DescriptorKit.Reach

/-!
Imports that a file does not need. An import is needed when the file refers to a type that it
declares, or sets an extension that it declares, or when it hands on, by public imports, a file of
which one of these holds. Public imports are never reported.
-/
namespace DescriptorKit.Unused

/-- A name below a scope, with a dot in front of each component. -/
def child (scope name : String) : String := scope ++ "." ++ name

mutual

/-- The types of a message: what is nested in it, its enums, itself. -/
def typesOf (scope : String) : MessageDecl → List String
  | ⟨name, _, nested, enums, _, _, _, _, _, _⟩ =>
    nestedTypesOf (child scope name) nested ++
      enums.map (fun e => child (child scope name) e.name) ++ [child scope name]

def nestedTypesOf (scope : String) : List MessageDecl → List String
  | [] => []
  | m :: rest => typesOf scope m ++ nestedTypesOf scope rest

end

/-- The absolute names of all types that a file declares. -/
def declared (f : FileDecl) : List String :=
  let scope := if f.scope = "" then "" else "." ++ f.scope
  nestedTypesOf scope f.messages ++ f.enums.map fun e => child scope e.name

/-- The types that a field declaration refers to. -/
def fieldReferences (d : FieldDecl) : List String :=
  [d.typeName.getD "", d.extendee.getD ""]

mutual

def messageReferences : MessageDecl → List String
  | ⟨_, fields, nested, _, _, extensions, _, _, _, _⟩ =>
    fields.flatMap fieldReferences ++ extensions.flatMap fieldReferences ++
      nestedReferences nested

def nestedReferences : List MessageDecl → List String
  | [] => []
  | m :: rest => messageReferences m ++ nestedReferences rest

end

/-- The names of all types that a file refers to. -/
def references (f : FileDecl) : List String :=
  (nestedReferences f.messages ++ f.extensions.flatMap fieldReferences ++
    f.services.flatMap fun s => s.methods.flatMap fun m => [m.input, m.output]).filter (· ≠ "")

mutual

/-- The files that declare the extensions set anywhere in a value. -/
def extensionFiles : Value → List String
  | .scalar _ => []
  | .message slots => slotFiles slots
  | .many vs => valueFiles vs

def valueFiles : List Value → List String
  | [] => []
  | v :: rest => extensionFiles v ++ valueFiles rest

def slotFiles : List Slot → List String
  | [] => []
  | .known f v :: rest => f.extendedBy.toList ++ extensionFiles v ++ slotFiles rest
  | .unknown _ _ :: rest => slotFiles rest

end

/-- The declaring file of every type; what is declared last comes first. -/
def symbols (ds : List (Descriptor × FileDecl)) : List (String × String) :=
  (ds.flatMap fun (d, f) => (declared f).map fun t => (t, d.name)).reverse

/-- The files other than `d` that its references and its options draw on. -/
def usedFiles (symbols : List (String × String)) (d : Descriptor) (f : FileDecl) : List String :=
  ((references f).filterMap (fun r => (symbols.find? (·.1 = r)).map (·.2)) ++
    slotFiles d.message).filter (· ≠ d.name)

/-- The files that a file hands on, as the last descriptor of its name states them. -/
def handedOn (ds : List (Descriptor × FileDecl)) (file : String) : List String :=
  match ds.reverse.find? (·.1.name = file) with
  | none => []
  | some (_, f) =>
    f.publicDependencies.filterMap fun p =>
      if 0 ≤ p.toInt then f.dependencies[p.toInt.toNat]? else none

/-- The indexes of the imports that `d` does not need. -/
def indexesOf (ds : List (Descriptor × FileDecl)) (symbols : List (String × String))
    (d : Descriptor) (f : FileDecl) : List Nat :=
  let used := usedFiles symbols d f
  (d.dependencies.zipIdx.filter fun (dependency, i) =>
    !d.isPublic i &&
      !(reachable (handedOn ds) (ds.map (·.1.name)) [dependency]).any (· ∈ used)).map (·.2)

/-- For each descriptor, the indexes of the imports it does not need. -/
def indexes (descriptors : List Descriptor) : List (List Nat) :=
  let ds := descriptors.map fun d => (d, d.decl)
  let symbols := symbols ds
  ds.map fun (d, f) => indexesOf ds symbols d f

end DescriptorKit.Unused
