/-!
The options that can be set across all files of an image, and the values they take.
-/
namespace DescriptorKit.Managed

/-- A file option. Those named for a lead or a tail set no field of a descriptor themselves; they
shape the value that is derived for the option they belong to. -/
inductive FileOption where
  | javaPackage
  | javaPackageLead
  | javaPackageTail
  | javaOuterClassname
  | javaMultipleFiles
  | javaStringCheckUtf8
  | optimizeFor
  | goPackage
  | goPackageLead
  | ccEnableArenas
  | objcClassPrefix
  | csharpNamespace
  | csharpNamespaceLead
  | swiftPrefix
  | phpNamespace
  | phpMetadataNamespace
  | phpMetadataNamespaceTail
  | rubyPackage
  | rubyPackageTail
  deriving DecidableEq, Repr

namespace FileOption

def all : List FileOption := [
  .javaPackage, .javaPackageLead, .javaPackageTail, .javaOuterClassname, .javaMultipleFiles,
  .javaStringCheckUtf8, .optimizeFor, .goPackage, .goPackageLead, .ccEnableArenas,
  .objcClassPrefix, .csharpNamespace, .csharpNamespaceLead, .swiftPrefix, .phpNamespace,
  .phpMetadataNamespace, .phpMetadataNamespaceTail, .rubyPackage, .rubyPackageTail]

def name : FileOption → String
  | .javaPackage => "java_package"
  | .javaPackageLead => "java_package_prefix"
  | .javaPackageTail => "java_package_suffix"
  | .javaOuterClassname => "java_outer_classname"
  | .javaMultipleFiles => "java_multiple_files"
  | .javaStringCheckUtf8 => "java_string_check_utf8"
  | .optimizeFor => "optimize_for"
  | .goPackage => "go_package"
  | .goPackageLead => "go_package_prefix"
  | .ccEnableArenas => "cc_enable_arenas"
  | .objcClassPrefix => "objc_class_prefix"
  | .csharpNamespace => "csharp_namespace"
  | .csharpNamespaceLead => "csharp_namespace_prefix"
  | .swiftPrefix => "swift_prefix"
  | .phpNamespace => "php_namespace"
  | .phpMetadataNamespace => "php_metadata_namespace"
  | .phpMetadataNamespaceTail => "php_metadata_namespace_suffix"
  | .rubyPackage => "ruby_package"
  | .rubyPackageTail => "ruby_package_suffix"

theorem mem_all (o : FileOption) : o ∈ all := by
  cases o <;> decide

def ofName? (s : String) : Option FileOption := all.find? (·.name = s)

theorem ofName?_name (o : FileOption) : ofName? o.name = some o := by
  cases o <;> decide +kernel

/-- The number of the descriptor field that an option sets, if it sets one. The field has the name
of the option. -/
def fieldNumber? : FileOption → Option Nat
  | .javaPackage => some 1
  | .javaOuterClassname => some 8
  | .optimizeFor => some 9
  | .javaMultipleFiles => some 10
  | .goPackage => some 11
  | .javaStringCheckUtf8 => some 27
  | .ccEnableArenas => some 31
  | .objcClassPrefix => some 36
  | .csharpNamespace => some 37
  | .swiftPrefix => some 39
  | .phpNamespace => some 41
  | .phpMetadataNamespace => some 44
  | .rubyPackage => some 45
  | _ => none

/-- Where the option stands in a file: the number of the options, and its own number there. -/
def sourcePath? (o : FileOption) : Option (List Int32) :=
  o.fieldNumber?.map fun n => [8, Int32.ofNat n]

variable {o o' : FileOption} {n : Nat}

theorem sourcePath?_eq (h : o.fieldNumber? = some n) :
    o.sourcePath? = some [8, Int32.ofNat n] := by
  rw [sourcePath?, h]
  rfl

theorem sourcePath?_inj {path : List Int32} (h : o.sourcePath? = some path)
    (h' : o'.sourcePath? = some path) : o = o' := by
  have hall : ∀ o ∈ all, ∀ o' ∈ all, o.sourcePath?.isSome → o.sourcePath? = o'.sourcePath? →
      o = o' := by
    decide +kernel
  exact hall o o.mem_all o' o'.mem_all (by simp [h]) (h.trans h'.symm)

theorem fieldNumber?_inj (h : o.fieldNumber? = some n) (h' : o'.fieldNumber? = some n) : o = o' :=
  sourcePath?_inj (sourcePath?_eq h) (sourcePath?_eq h')

end FileOption

/-- A field option. -/
inductive FieldOption where
  /-- How a language without 64-bit integers represents them. -/
  | jsType
  deriving DecidableEq, Repr

namespace FieldOption

def name : FieldOption → String
  | .jsType => "jstype"

def ofName? (s : String) : Option FieldOption := if s = "jstype" then some .jsType else none

end FieldOption

inductive OptimizeMode where
  | speed
  | codeSize
  | liteRuntime
  deriving DecidableEq, Repr

namespace OptimizeMode

def code : OptimizeMode → Int32
  | .speed => 1
  | .codeSize => 2
  | .liteRuntime => 3

def text : OptimizeMode → String
  | .speed => "Speed"
  | .codeSize => "CodeSize"
  | .liteRuntime => "LiteRuntime"

end OptimizeMode

inductive JsType where
  | normal
  | string
  | number
  deriving DecidableEq, Repr

namespace JsType

def code : JsType → Int32
  | .normal => 0
  | .string => 1
  | .number => 2

/-- Numbers that are not known count as the first one. -/
def ofCode (n : Int32) : JsType :=
  if n = 1 then .string else if n = 2 then .number else .normal

def text : JsType → String
  | .normal => "JsNormal"
  | .string => "JsString"
  | .number => "JsNumber"

end JsType

/-- The value an override gives to an option. -/
inductive OverrideValue where
  | string (s : String)
  | bool (b : Bool)
  | optimizeMode (m : OptimizeMode)
  | jsType (t : JsType)
  deriving DecidableEq, Repr

end DescriptorKit.Managed
