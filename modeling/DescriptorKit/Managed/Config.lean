import DescriptorKit.Image.File

/-!
Rules that say which options are set, to what, and where nothing is to be touched. Rules apply in
the order they are declared; of the overrides that match, the last one wins.
-/
namespace DescriptorKit.Managed

/-- Chooses files by path, which may be that of a directory, and by module. What is not given picks
all files. -/
structure Selector where
  path : Option String := none
  module : Option ModuleName := none
  deriving DecidableEq

namespace Selector

def isGlobal (s : Selector) : Bool := s.path.isNone && s.module.isNone

def chooses (s : Selector) (f : ImageFile) : Bool :=
  s.path.all (fun p => Path.contains p f.path) && s.module.all (fun m => f.module = some m)

/-- A path must be in normal form, or it would choose nothing. -/
def validate (s : Selector) : Except Error Unit :=
  match s.path with
  | none => .ok ()
  | some p =>
    match Path.normalize p with
    | .error fault => .error (.badPath p fault)
    | .ok normal => if normal = p then .ok () else .error (.badPath p .selectorNotNormal)

def text (s : Selector) : String :=
  match s.path, s.module with
  | some p, some m => "for " ++ p ++ " in " ++ m.text
  | some p, none => "for " ++ p
  | none, some m => "for " ++ m.text
  | none, none => "for all files"

end Selector

/-- Exempts files, fields or options. What is not given matches everything. -/
structure DisableRule where
  selector : Selector := {}
  fieldName : Option String := none
  fileOption : Option FileOption := none
  fieldOption : Option FieldOption := none

namespace DisableRule

def coversFile (r : DisableRule) (f : ImageFile) (o : FileOption) : Bool :=
  r.fieldName.isNone && r.fieldOption.isNone && r.fileOption.all (· = o) && r.selector.chooses f

def coversField (r : DisableRule) (f : ImageFile) (fieldName : String) (o : FieldOption) : Bool :=
  r.fileOption.isNone && r.fieldOption.all (· = o) && r.fieldName.all (· = fieldName)
    && r.selector.chooses f

end DisableRule

structure FileRule where
  selector : Selector := {}
  option : FileOption
  value : OverrideValue

structure FieldRule where
  selector : Selector := {}
  fieldName : Option String := none
  option : FieldOption
  value : OverrideValue

structure Config where
  disables : List DisableRule := []
  fileRules : List FileRule := []
  fieldRules : List FieldRule := []

namespace Config

def disable (C : Config) (r : DisableRule) : Config := { C with disables := C.disables ++ [r] }

def override (C : Config) (r : FileRule) : Config := { C with fileRules := C.fileRules ++ [r] }

def overrideFields (C : Config) (r : FieldRule) : Config :=
  { C with fieldRules := C.fieldRules ++ [r] }

/-- Derives import paths below `lead` for all files. -/
def goPackageUnder (C : Config) (lead : String) : Config :=
  C.override { option := .goPackageLead, value := .string lead }

/-- Leaves an option alone in the files of a module. -/
def exceptModule (C : Config) (option : FileOption) (module : ModuleName) : Config :=
  C.disable { selector := { module := some module }, fileOption := some option }

def overrideForModule (C : Config) (option : FileOption) (module : ModuleName)
    (value : OverrideValue) : Config :=
  C.override { selector := { module := some module }, option, value }

/-- Sets an option in the file at a path, or in the files below it. -/
def overrideForFile (C : Config) (option : FileOption) (path : String) (value : OverrideValue) :
    Config :=
  C.override { selector := { path := some path }, option, value }

def validate (C : Config) : Except Error Unit := do
  C.disables.forM fun r => r.selector.validate
  C.fileRules.forM fun r => r.selector.validate
  C.fieldRules.forM fun r => r.selector.validate

def fileOptionDisabled (C : Config) (f : ImageFile) (o : FileOption) : Bool :=
  C.disables.any fun r => r.coversFile f o

def fieldOptionDisabled (C : Config) (f : ImageFile) (fieldName : String) (o : FieldOption) :
    Bool :=
  C.disables.any fun r => r.coversField f fieldName o

/-- The overrides of file options that apply to a file, in order. -/
def fileRulesFor (C : Config) (f : ImageFile) : List FileRule :=
  C.fileRules.filter fun r => r.selector.chooses f

/-- The overrides of field options that apply to a file, in order. -/
def fieldRulesFor (C : Config) (f : ImageFile) : List FieldRule :=
  C.fieldRules.filter fun r => r.selector.chooses f

/-- The overrides that name files of which none is there. -/
def unusedRules (C : Config) (files : List ImageFile) : List String :=
  let idle (s : Selector) : Bool := !s.isGlobal && !files.any s.chooses
  (C.fileRules.filter fun r => idle r.selector).map
      (fun r => r.option.name ++ " " ++ r.selector.text)
    ++ (C.fieldRules.filter fun r => idle r.selector).map fun r =>
      r.option.name ++ " " ++ r.selector.text

end Config
end DescriptorKit.Managed
