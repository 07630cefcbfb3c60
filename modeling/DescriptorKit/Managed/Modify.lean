import DescriptorKit.Descriptor.Modify
import DescriptorKit.Image.Basic
import DescriptorKit.Managed.Config
import DescriptorKit.Managed.Value

/-!
Setting options across an image. A value comes from an override, or is derived from the package
and the path of the file, shaped by overrides of its lead and its tail. An option is written only
where its value changes; its place in the source is noted, and the source locations of all noted
places are dropped in the end, also when an error stops the pass midway. Each file is swept by
itself. A sweep fails only for a descriptor that cannot be written in its own types; which of the
files behind such a one keep their locations depends on an order that nothing fixes, so of such a
pass no more is meant than that it fails.
-/
namespace DescriptorKit.Managed

/-- A file that is being modified, and the source paths of the options written so far. -/
structure Progress where
  file : ImageFile
  marks : List (List Int32) := []

/-- Steps that keep what they did when they fail. -/
abbrev Modifying := ExceptT Error (StateM Progress)

namespace Modifying

def file : Modifying ImageFile := do return (← get).file

def mark (path : List Int32) : Modifying Unit :=
  modify fun p => { p with marks := p.marks ++ [path] }

/-- Changes the descriptor of the file. -/
def change {α : Type} (f : Descriptor → Descriptor × Except Error α) : Modifying α := do
  let p ← get
  let (descriptor, result) := f p.file.descriptor
  set { p with file := { p.file with descriptor } }
  match result with
  | .ok a => return a
  | .error e => throw e

/-- Writes a file option, unless it has the value already. -/
def setIfChanged (o : FileOption) (s : Scalar) : Modifying Unit := do
  match o.sourcePath? with
  | none => throw (.breach (.noDescriptorField o))
  | some path =>
    match (← file).descriptor.fileOption? o.name with
    | some (.scalar old) =>
      if old = s then return
      else
        change fun d => d.setFileOption o.name s
        mark path
    | _ =>
      change fun d => d.setFileOption o.name s
      mark path

end Modifying

/-- A text option, the options that shape what is derived for it, and how that is derived from a
file, a lead and a tail. -/
structure Family where
  option : FileOption
  lead : Option FileOption := none
  tail : Option FileOption := none
  defaultLead : Option String := none
  defaultTail : Option String := none
  derive : ImageFile → Option String → Option String → Option String

/-- The text options in the order in which they are set. -/
def families : List Family := [
  { option := .javaPackage, lead := some .javaPackageLead, tail := some .javaPackageTail
    defaultLead := some "com"
    derive := fun f lead tail => Value.javaPackage f.descriptor.package lead tail },
  { option := .javaOuterClassname
    derive := fun f _ _ => some (Value.javaOuterClassname f.path) },
  { option := .goPackage, lead := some .goPackageLead
    derive := fun f lead _ =>
      (lead.filter (· ≠ "")).map fun lead => Value.goPackage f.path f.descriptor.package lead },
  { option := .objcClassPrefix
    derive := fun f _ _ => Value.objcClassPrefix f.descriptor.package },
  { option := .csharpNamespace, lead := some .csharpNamespaceLead
    derive := fun f lead _ => Value.csharpNamespace f.descriptor.package lead },
  { option := .swiftPrefix
    derive := fun _ _ _ => none },
  { option := .phpNamespace
    derive := fun f _ _ => Value.phpNamespace f.descriptor.package },
  { option := .phpMetadataNamespace, tail := some .phpMetadataNamespaceTail
    defaultTail := some "GPBMetadata"
    derive := fun f _ tail => Value.phpMetadataNamespace f.descriptor.package tail },
  { option := .rubyPackage, tail := some .rubyPackageTail
    derive := fun f _ tail => Value.rubyPackage f.descriptor.package tail }]

/-- What the overrides of a family come to. -/
structure Resolved where
  value : Option String := none
  lead : Option String := none
  tail : Option String := none

def textValue (o : FileOption) : OverrideValue → Except Error String
  | .string s => .ok s
  | other => .error (.breach (.textExpected o other))

/-- Takes overrides into account one after the other. One of the option itself replaces all before
it; one of its lead or tail makes the value a derived one again. -/
def Resolved.apply (F : Family) (leadEnabled tailEnabled : Bool) :
    Resolved → List FileRule → Except Error Resolved
  | r, [] => .ok r
  | r, rule :: rest =>
    if rule.option = F.option then
      match textValue rule.option rule.value with
      | .ok s => apply F leadEnabled tailEnabled { value := some s } rest
      | .error e => .error e
    else if leadEnabled && some rule.option = F.lead then
      match textValue rule.option rule.value with
      | .ok s => apply F leadEnabled tailEnabled { r with value := none, lead := some s } rest
      | .error e => .error e
    else if tailEnabled && some rule.option = F.tail then
      match textValue rule.option rule.value with
      | .ok s => apply F leadEnabled tailEnabled { r with value := none, tail := some s } rest
      | .error e => .error e
    else apply F leadEnabled tailEnabled r rest

/-- The value that a text option is to have, if any. -/
def textOption (C : Config) (F : Family) (f : ImageFile) : Except Error (Option String) :=
  if C.fileOptionDisabled f F.option then .ok none
  else
    let enabled (o : Option FileOption) : Bool := o.any fun o => !C.fileOptionDisabled f o
    let leadEnabled := enabled F.lead
    let tailEnabled := enabled F.tail
    let start : Resolved :=
      { lead := F.defaultLead.filter fun _ => leadEnabled
        tail := F.defaultTail.filter fun _ => tailEnabled }
    match start.apply F leadEnabled tailEnabled (C.fileRulesFor f) with
    | .error e => .error e
    | .ok r => .ok (r.value <|> F.derive f r.lead r.tail)

/-- The other file options, and what they are set to without an override. -/
def scalarOptions : List (FileOption × Option Scalar) := [
  (.javaMultipleFiles, some (.bool true)),
  (.javaStringCheckUtf8, none),
  (.optimizeFor, some (.enum OptimizeMode.speed.code)),
  (.ccEnableArenas, none)]

def scalarValue (o : FileOption) (v : OverrideValue) : Except Error Scalar :=
  if o = .optimizeFor then
    match v with
    | .optimizeMode m => .ok (.enum m.code)
    | other => .error (.breach (.modeExpected other))
  else
    match v with
    | .bool b => .ok (.bool b)
    | other => .error (.breach (.flagExpected o other))

/-- The value after all overrides of the option. -/
def applyScalar (o : FileOption) : Option Scalar → List FileRule → Except Error (Option Scalar)
  | s, [] => .ok s
  | s, rule :: rest =>
    if rule.option = o then
      match scalarValue o rule.value with
      | .ok s => applyScalar o (some s) rest
      | .error e => .error e
    else applyScalar o s rest

/-- The value that an option which is no text is to have, if any. -/
def scalarOption (C : Config) (o : FileOption) (default : Option Scalar) (f : ImageFile) :
    Except Error (Option Scalar) :=
  if C.fileOptionDisabled f o then .ok none else applyScalar o default (C.fileRulesFor f)

/-- A declared field or extension. -/
structure FieldSite where
  path : List Int32
  fullName : String
  decl : FieldDecl

/-- The fields and extensions that stand in a message itself. -/
def sitesIn (s : MessageSite) : List FieldSite :=
  let site (field : Int32) (p : FieldDecl × Nat) : FieldSite :=
    ⟨MessageDecl.childPath s.path field p.2, qualify s.fullName p.1.name, p.1⟩
  s.decl.fields.zipIdx.map (site 2) ++ s.decl.extensions.zipIdx.map (site 6)

/-- Every field and extension that a file declares. -/
def fieldSites (f : FileDecl) : List FieldSite :=
  f.sites.flatMap sitesIn ++
    f.extensions.zipIdx.map fun (d, i) =>
      ⟨MessageDecl.childPath [] 7 i, qualify f.scope d.name, d⟩

/-- Whether a field holds integers of 64 bits. -/
def isWide (d : FieldDecl) : Bool :=
  match d.type with
  | some (.scalar k) => k ∈ [.int64, .uint64, .sint64, .fixed64, .sfixed64]
  | _ => false

def jsTypeOf (d : FieldDecl) : JsType :=
  JsType.ofCode ((d.options.bind (·.intAt? 6)).getD 0)

def jsTypeValue : OverrideValue → Except Error JsType
  | .jsType t => .ok t
  | other => .error (.breach (.jsTypeExpected other))

/-- What the rules for a field come to. -/
def applyJsType (fullName : String) : Option JsType → List FieldRule →
    Except Error (Option JsType)
  | t, [] => .ok t
  | t, rule :: rest =>
    if rule.fieldName.all (· = fullName) then
      match jsTypeValue rule.value with
      | .ok t => applyJsType fullName (some t) rest
      | .error e => .error e
    else applyJsType fullName t rest

/-- The declarations whose representation is to change, and to what. -/
def jsTypeChanges (C : Config) (f : ImageFile) (rules : List FieldRule) :
    List FieldSite → Except Error (List (List Int32 × JsType))
  | [] => .ok []
  | s :: rest =>
    if !isWide s.decl || C.fieldOptionDisabled f s.fullName .jsType then
      jsTypeChanges C f rules rest
    else
      match applyJsType s.fullName none rules with
      | .error e => .error e
      | .ok t =>
        match jsTypeChanges C f rules rest with
        | .error e => .error e
        | .ok changes =>
          match t with
          | some t => .ok (if t = jsTypeOf s.decl then changes else (s.path, t) :: changes)
          | none => .ok changes

def modifyJsTypes (C : Config) : Modifying Unit := do
  let f ← Modifying.file
  let rules := (C.fieldRulesFor f).filter fun r => r.option = .jsType
  if rules.isEmpty then return
  let changes ← liftExcept (jsTypeChanges C f rules (fieldSites f.descriptor.decl))
  changes.forM fun (path, t) => do
    Modifying.change fun d => d.setJsType path t.code
    Modifying.mark (path ++ [8, 6])
where
  liftExcept {α : Type} : Except Error α → Modifying α
    | .ok a => return a
    | .error e => throw e

/-- Writes the value that an option is to have. -/
def modifyOption (o : FileOption) (value : ImageFile → Except Error (Option Scalar)) :
    Modifying Unit := do
  match value (← Modifying.file) with
  | .error e => throw e
  | .ok none => return
  | .ok (some s) => Modifying.setIfChanged o s

/-- Sets all options of a file. -/
def modifyFile (C : Config) : Modifying Unit := do
  families.forM fun F =>
    modifyOption F.option fun f => (textOption C F f).map fun s => s.map Scalar.string
  scalarOptions.forM fun (o, default) => modifyOption o (scalarOption C o default)
  modifyJsTypes C

/-- An entry of an image after the pass, with the source paths of the options written in it. -/
abbrev Marked := (String × ImageFile) × List (List Int32)

/-- Modifies files until one fails. Well-known files are left alone. -/
def modifyFiles (C : Config) : List (String × ImageFile) → List Marked × Except Error Unit
  | [] => ([], .ok ())
  | (path, f) :: rest =>
    if f.isWellKnown then
      let (marked, result) := modifyFiles C rest
      (((path, f), []) :: marked, result)
    else
      match (modifyFile C).run.run { file := f } with
      | (.error e, p) => (((path, p.file), p.marks) :: rest.map fun e => (e, []), .error e)
      | (.ok (), p) =>
        let (marked, result) := modifyFiles C rest
        (((path, p.file), p.marks) :: marked, result)

/-- Drops the source locations of the options written in a file. -/
def sweepFile : Marked → (String × ImageFile) × Except Error Nat
  | ((path, f), marks) =>
    if marks = [] then ((path, f), .ok 0)
    else
      let (descriptor, result) := f.descriptor.removeLocations marks
      ((path, { f with descriptor }), result)

/-- The sum of the counts, or the first error. -/
def total : List (Except Error Nat) → Except Error Nat
  | [] => .ok 0
  | r :: rest => do
    let n ← r
    let m ← total rest
    .ok (n + m)

/-- What a pass did. -/
structure Report where
  modifiedOptions : Nat
  removedLocations : Nat
  /-- Overrides that name files of which none is there. -/
  unusedOverrides : List String
  deriving DecidableEq

/-- Sets the options of an image. After an error the image holds what was written until then, with
each file swept by itself. -/
def modify (I : Image) (C : Config) : Image × Except Error Report :=
  match C.validate with
  | .error e => (I, .error e)
  | .ok () =>
    let (marked, result) := modifyFiles C I.entries
    let swept := marked.map sweepFile
    let J : Image := ⟨swept.map (·.1)⟩
    match result with
    | .error e => (J, .error e)
    | .ok () =>
      match total (swept.map (·.2)) with
      | .error e => (J, .error e)
      | .ok removedLocations =>
        (J, .ok
          { modifiedOptions := (marked.flatMap (·.2)).length
            removedLocations
            unusedOverrides := C.unusedRules I.files })

end DescriptorKit.Managed
