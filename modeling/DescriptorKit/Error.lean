import DescriptorKit.Annotation
import DescriptorKit.Commit
import DescriptorKit.Managed.Option
import DescriptorKit.ModuleName
import DescriptorKit.Path
import DescriptorKit.Pool.Fault
import DescriptorKit.Text.Format
import DescriptorKit.Wire.Records

/-!
Why an operation failed, and the text that says so.
-/
namespace DescriptorKit
open Managed

/-- Why a field does not take a value. -/
inductive SetFault where
  | missing
  /-- Both the type the field has and the value are given as text. -/
  | kind (type value : String)
  deriving DecidableEq, Repr

def SetFault.text : SetFault → String
  | .missing => "field not found"
  | .kind type value =>
    "expected a value of type '" ++ type ++ "', but found '" ++ value ++ "'"

namespace Managed.OverrideValue

/-- The value together with its sort. -/
def text : OverrideValue → String
  | .string s => "String(" ++ Text.quoted s ++ ")"
  | .bool b => "Bool(" ++ toString b ++ ")"
  | .optimizeMode m => "OptimizeMode(" ++ m.text ++ ")"
  | .jsType t => "JsType(" ++ t.text ++ ")"

end Managed.OverrideValue

/-- What is recorded about the origin of a source file. -/
inductive OriginPart where
  | externalPath
  | localPath
  | module
  | commit
  deriving DecidableEq, Repr

def OriginPart.text : OriginPart → String
  | .externalPath => "external path"
  | .localPath => "local path"
  | .module => "module"
  | .commit => "commit"

/-- A list of numbers in brackets. -/
def numbersText (ns : List Int32) : String :=
  "[" ++ String.intercalate ", " (ns.map fun n => toString n.toInt) ++ "]"

/-- A broken assumption. -/
inductive Breach where
  | textExpected (option : FileOption) (value : OverrideValue)
  | flagExpected (option : FileOption) (value : OverrideValue)
  | modeExpected (value : OverrideValue)
  | jsTypeExpected (value : OverrideValue)
  | noDescriptorField (option : FileOption)
  | noFileOptions
  | noFieldOptions
  | fileOptionRefused (name : String) (fault : SetFault)
  | jsTypeRefused (fault : SetFault)
  | noFieldAt (path : List Int32)
  /-- One path was served with two origins, each given as text. -/
  | origin (part : OriginPart) (path first second : String)
  /-- A bucket could not say whether it holds a file. -/
  | bucket (report : String)
  deriving DecidableEq, Repr

def Breach.text : Breach → String
  | .textExpected option value =>
    option.name ++ " override must be a string, got " ++ value.text
  | .flagExpected option value => option.name ++ " override must be a bool, got " ++ value.text
  | .modeExpected value => "optimize_for override must be an optimize mode, got " ++ value.text
  | .jsTypeExpected value => "jstype override has non-jstype value " ++ value.text
  | .noDescriptorField option => option.name ++ " is not a descriptor option"
  | .noFileOptions => "FileDescriptorProto has no options message"
  | .noFieldOptions => "FieldDescriptorProto has no options message"
  | .fileOptionRefused name fault => "cannot set file option " ++ name ++ ": " ++ fault.text
  | .jsTypeRefused fault => "cannot set jstype: " ++ fault.text
  | .noFieldAt path => "no field at source path " ++ numbersText path
  | .origin part path first second =>
    "conflicting " ++ part.text ++ " for " ++ path ++ ": " ++ first ++ " and " ++ second
  | .bucket report => report

/-- What is wrong with a file of an image. -/
inductive FileFault where
  | noName
  | negativeIndex (path : String) (index : Int)
  | moduleWithoutName (path : String)
  | moduleName (path name : String)
  | commit (path spelling : String) (fault : Commit.Fault)
  | commitWithoutModule (path : String)
  | indexRange (path : String) (index count : Nat)
  | publicIndex (path : String) (index : Nat)
  deriving DecidableEq, Repr

def moduleNameText (name : String) : String :=
  "invalid module name '" ++ name ++ "': expected remote/owner/name"

def FileFault.text : FileFault → String
  | .noName => "file descriptor has no name"
  | .negativeIndex path index =>
    path ++ ": negative unused dependency index " ++ toString index
  | .moduleWithoutName path => path ++ ": module info has no name"
  | .moduleName path name => path ++ ": " ++ moduleNameText name
  | .commit path spelling fault =>
    path ++ ": invalid commit '" ++ spelling ++ "': " ++ fault.text
  | .commitWithoutModule path => path ++ ": commit set without a module"
  | .indexRange path index count =>
    path ++ ": unused dependency index " ++ toString index ++ " out of range for "
      ++ toString count ++ " dependencies"
  | .publicIndex path index =>
    path ++ ": public dependency " ++ toString index ++ " cannot be unused"

/-- Why the file system refused. -/
inductive DiskFault where
  | missing
  /-- A walk over a directory met a name that is not there. -/
  | walk (path : String)
  | isDirectory
  deriving DecidableEq, Repr

def DiskFault.text : DiskFault → String
  | .missing => "No such file or directory (os error 2)"
  | .walk path =>
    "IO error for operation on " ++ path ++ ": No such file or directory (os error 2)"
  | .isDirectory => "Is a directory (os error 21)"

/-- Requests that make no sense. -/
inductive OptionFault where
  | unusedWithoutReparse
  | fileOption (name : String)
  | fieldOption (name : String)
  deriving DecidableEq, Repr

def OptionFault.text : OptionFault → String
  | .unusedWithoutReparse => "computing unused imports requires reparse"
  | .fileOption name => "unknown file option: " ++ name
  | .fieldOption name => "unknown field option: " ++ name

inductive Error where
  | readDisk (path : String) (fault : DiskFault)
  | writeDisk (path : String) (fault : DiskFault)
  | records (fault : Wire.Records.Fault)
  | decode (failure : Wire.Failure)
  | pool (fault : Pool.Fault)
  | badPath (given : String) (fault : Path.Fault)
  | moduleName (name : String)
  | duplicatePath (path : String)
  | inconsistentCommit (module : ModuleName) (first second : Option Commit)
  | noFiles
  | file (fault : FileFault)
  | pathNotFound (path : String)
  | excludeContainsInclude (include_ exclude : String)
  | nonImportTwice (path : String)
  | fileNotFound (path : String)
  | importNotFound (path : String) (importer : Option String)
  | options (fault : OptionFault)
  | compile (annotations : AnnotationSet)
  | cancelled
  | breach (cause : Breach)
  deriving DecidableEq

namespace Error

def commitText (c : Option Commit) : String := c.elim "none" Commit.text

def text : Error → String
  | .readDisk path fault => "failed to read file '" ++ path ++ "': " ++ fault.text
  | .writeDisk path fault => "failed to write file '" ++ path ++ "': " ++ fault.text
  | .records fault => fault.text
  | .decode failure => "failed to decode descriptor: " ++ failure.text
  | .pool fault => "failed to build descriptor pool: " ++ fault.text
  | .badPath given fault => "invalid path '" ++ given ++ "': " ++ fault.reason
  | .moduleName name => moduleNameText name
  | .duplicatePath path => "duplicate path in image: " ++ path
  | .inconsistentCommit module first second =>
    "inconsistent commit for module " ++ module.text ++ ": '" ++ commitText first ++ "' and '"
      ++ commitText second ++ "'"
  | .noFiles => "image contains no files"
  | .file fault => "invalid image: " ++ fault.text
  | .pathNotFound path => "path \"" ++ path ++ "\" has no matching file in the image"
  | .excludeContainsInclude include_ exclude =>
    "excluded path \"" ++ exclude ++ "\" contains targeted path \"" ++ include_ ++ "\""
  | .nonImportTwice path => path ++ " is a non-import in multiple images"
  | .fileNotFound path => path ++ ": does not exist"
  | .importNotFound path none => "import \"" ++ path ++ "\" was not found"
  | .importNotFound path (some importer) =>
    importer ++ ": import \"" ++ path ++ "\" was not found"
  | .options fault => "invalid options: " ++ fault.text
  | .compile annotations => annotations.text
  | .cancelled => "operation cancelled"
  | .breach cause => "internal error: " ++ cause.text

/-- What kind of failure an error is. -/
inductive Category where
  | internal
  | compile
  | notFound
  | other
  deriving DecidableEq, Repr

def category : Error → Category
  | .breach _ => .internal
  | .compile _ => .compile
  | .fileNotFound _ | .importNotFound _ _ | .pathNotFound _ => .notFound
  | _ => .other

end Error
end DescriptorKit
