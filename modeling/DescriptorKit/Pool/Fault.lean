/-!
Why a set of files does not fit together, and where in them.
-/
namespace DescriptorKit.Pool

/-- A declaration in a file, given by the path that leads to it. -/
structure Place where
  file : String
  path : List Int32
  deriving DecidableEq, Repr

inductive Fault where
  | fileTwice (file : String)
  | importMissing (file : String)
  | importIndex
  | nameTwice (name : String)
  /-- The name was declared first in another file. -/
  | nameTaken (name file : String)
  | camelCase (first second : String)
  | emptyEnum
  | firstEnumValue
  | enumNumberTwice (number : Int)
  | fieldNumber (number : Int)
  | fieldNumberTwice (number : Int)
  /-- The bounds are those that the file states, both included. -/
  | reservedNumber (number first last : Int)
  | extensibleNumber (number first last : Int)
  | extensionNumber (message : String) (number : Int)
  | reservedEnumNumber (number first last : Int)
  | oneofIndex
  /-- The name is the one that the field states, if it states one. -/
  | jsonName (name : String)
  | defaultValue (value type : String)
  /-- What is missing would stand at the path. -/
  | incomplete (path : List Int32)
  | undefined (name : String)
  /-- The first part of the name stands for something that has no such member. -/
  | shadowed (name full : String)
  | wrongSort (name expected : String)
  | options
  | optionField (name : String)
  | optionTwice (option : String)
  | optionValue (type option value : String)
  /-- The braces do not spell a message of the type. -/
  | optionMessage (type option : String)
  /-- The option is no message that could have fields. -/
  | optionHost (option type : String)
  /-- The extension is one of another type. -/
  | optionExtendee (expected option extendee : String)
  deriving DecidableEq, Repr

def Fault.text : Fault → String
  | .fileTwice file => "a different file named '" ++ file ++ "' has already been added"
  | .importMissing file => "imported file '" ++ file ++ "' has not been added"
  | .importIndex => "invalid import index"
  | .nameTwice name => "name '" ++ name ++ "' is defined twice"
  | .nameTaken name file => "name '" ++ name ++ "' is already defined in file '" ++ file ++ "'"
  | .camelCase first second =>
    "camel-case name of field '" ++ first ++ "' conflicts with field '" ++ second ++ "'"
  | .emptyEnum => "enums must have at least one value"
  | .firstEnumValue => "the first value for proto3 enums must be 0"
  | .enumNumberTwice number => "enum number '" ++ toString number ++ "' has already been used"
  | .fieldNumber number => "invalid field number '" ++ toString number ++ "'"
  | .fieldNumberTwice number => "field number '" ++ toString number ++ "' is already used"
  | .reservedNumber number first last =>
    "field number '" ++ toString number ++ "' conflicts with reserved range '" ++ toString first
      ++ " to " ++ toString last ++ "'"
  | .extensibleNumber number first last =>
    "field number '" ++ toString number ++ "' conflicts with extension range '" ++ toString first
      ++ " to " ++ toString last ++ "'"
  | .extensionNumber message number =>
    "message '" ++ message ++ "' does not define '" ++ toString number
      ++ "' as an extension number"
  | .reservedEnumNumber number first last =>
    "enum number '" ++ toString number ++ "' conflicts with reserved range '" ++ toString first
      ++ " to " ++ toString last ++ "'"
  | .oneofIndex => "invalid oneof index"
  | .jsonName name => "a field with JSON name '" ++ name ++ "' is already defined"
  | .defaultValue value type => "invalid default value '" ++ value ++ "' for type '" ++ type ++ "'"
  | .incomplete path =>
    "missing required field at [" ++ String.intercalate ", " (path.map toString) ++ "]"
  | .undefined name => "name '" ++ name ++ "' is not defined"
  | .shadowed name full =>
    "'" ++ name ++ "' resolves to '" ++ full ++ "', which is not defined"
  | .wrongSort name expected => "'" ++ name ++ "' is not " ++ expected
  | .options => "failed to decode file descriptor set"
  | .optionField name => "option field '" ++ name ++ "' is not defined"
  | .optionTwice option => "option field '" ++ option ++ "' has already been set"
  | .optionValue type option value =>
    "expected a value of type '" ++ type ++ "' for option '" ++ option ++ "', but found '" ++ value
      ++ "'"
  | .optionMessage type option =>
    "invalid value of type '" ++ type ++ "' for option '" ++ option ++ "'"
  | .optionHost option type =>
    "cannot set field for option '" ++ option ++ "' value of type '" ++ type ++ "'"
  | .optionExtendee expected option extendee =>
    "expected an extension to type '" ++ expected ++ "', but '" ++ option ++ "' extends '"
      ++ extendee ++ "'"

/-- A fault with the declarations it concerns. -/
structure Finding where
  fault : Fault
  places : List Place
  deriving DecidableEq, Repr

end DescriptorKit.Pool
