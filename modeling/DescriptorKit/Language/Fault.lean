import DescriptorKit.Language.Span
import DescriptorKit.Text.Decimal
import DescriptorKit.Text.Format

/-!
The words, numbers, texts and marks that a source consists of, and what can be wrong with a source
text by itself.
-/
namespace DescriptorKit.Language

inductive Token where
  | word (s : String)
  | int (n : Nat)
  /-- The bits of the number. -/
  | float (bits : UInt64)
  | text (b : Bytes)
  | mark (c : Char)
  deriving DecidableEq, Repr

/-- The token as a message about it shows it. -/
def Token.shown : Token → String
  | .word s => s
  | .int n => toString n
  | .float bits => Text.Decimal.pointed bits
  | .text b => Text.Format.quoteBytesHex b
  | .mark c => String.singleton c

inductive Fault where
  | token (span : Span)
  | hashComment (span : Span)
  | nestedComment (span : Span)
  | escape (span : Span)
  | textCharacter (span : Span)
  /-- A line that ends within a text. -/
  | unclosedText (span : Span)
  | integerTooLarge (span : Span)
  /-- A number with a letter behind it that says what it is. -/
  | floatMark (span : Span)
  /-- A word that starts right behind a number. -/
  | joined (span : Span)
  | encoding (span : Span)
  /-- What could stand there is given in words. -/
  | unexpected (expected : String) (found : Token) (span : Span)
  | ended (expected : String)
  | dialect (name : String) (span : Span)
  | packageTwice (first second : Span)
  /-- Names of groups and paths of imports have forms of their own. -/
  | form (span : Span)
  | identifier (span : Span)
  | messageNumber (span : Span)
  | enumNumber (span : Span)
  | labelMissing (span : Span)
  | labelOnMap (span : Span)
  | labelInOneof (span : Span)
  | requiredExtension (span : Span)
  /-- What the third version of the language does not have. -/
  | outdated (what : String) (span : Span)
  | outdatedDefault (span : Span)
  | mapInOneof (span : Span)
  | mapInExtension (span : Span)
  | mapKey (span : Span)
  | emptyOneof (span : Span)
  | negativeWord (span : Span)
  | valueRange (expected found : String) (span : Span)
  | valueSort (expected found : String) (span : Span)
  /-- A field of a sort that has no default. -/
  | needlessDefault (sort : String) (span : Span)
  deriving DecidableEq, Repr

def Fault.text : Fault → String
  | .token _ => "invalid token"
  | .hashComment _ => "'#' comments are not allowed here"
  | .nestedComment _ => "nested block comments are not supported"
  | .escape _ => "invalid string escape"
  | .textCharacter _ => "invalid string character"
  | .unclosedText _ => "unterminated string"
  | .integerTooLarge _ => "integer is too large"
  | .floatMark _ => "'f' suffix for float literals is not allowed"
  | .joined _ => "whitespace is required between an integer literal and an identifier"
  | .encoding _ => "string is not valid utf-8"
  | .unexpected expected found _ => "expected " ++ expected ++ ", but found '" ++ found.shown ++ "'"
  | .ended expected => "expected " ++ expected ++ ", but reached end of file"
  | .dialect name _ => "unknown syntax '" ++ name ++ "'"
  | .packageTwice _ _ => "multiple package names specified"
  | .form _ => "invalid group name"
  | .identifier _ => "invalid identifier"
  | .messageNumber _ => "message numbers must be between 1 and 536870911"
  | .enumNumber _ => "enum numbers must be between -2147483648 and 2147483647"
  | .labelMissing _ =>
    "fields must have a label with proto2 syntax " ++
      "(expected one of 'optional', 'repeated' or 'required')"
  | .labelOnMap _ => "map fields cannot have labels"
  | .labelInOneof _ => "oneof fields cannot have labels"
  | .requiredExtension _ => "extension fields may not be required"
  | .outdated what _ => what ++ " are not allowed in proto3 syntax"
  | .outdatedDefault _ => "default values are not allowed in proto3"
  | .mapInOneof _ => "map fields are not allowed in a oneof"
  | .mapInExtension _ => "map fields are not allowed in extensions"
  | .mapKey _ => "a map field key type must be an integer, boolean or string"
  | .emptyOneof _ => "a oneof must have at least one field"
  | .negativeWord _ => "identifiers may not be negative"
  | .valueRange expected found _ =>
    "expected value to be " ++ expected ++ ", but the value " ++ found ++ " is out of range"
  | .valueSort expected found _ =>
    "expected value to be " ++ expected ++ ", but found '" ++ found ++ "'"
  | .needlessDefault sort _ => sort ++ " fields may not have default values"

/-- Where to look. The end of the text is no place. -/
def Fault.spans : Fault → List Span
  | .token s | .hashComment s | .nestedComment s | .escape s | .textCharacter s | .unclosedText s
  | .integerTooLarge s | .floatMark s | .joined s | .encoding s | .unexpected _ _ s | .dialect _ s
  | .form s | .identifier s | .messageNumber s | .enumNumber s | .labelMissing s | .labelOnMap s
  | .labelInOneof s | .requiredExtension s | .outdated _ s | .outdatedDefault s | .mapInOneof s
  | .mapInExtension s | .mapKey s | .emptyOneof s | .negativeWord s | .valueRange _ _ s
  | .valueSort _ _ s | .needlessDefault _ s => [s]
  | .packageTwice first second => [first, second]
  | .ended _ => []

/-- Whether the fault is none in the text between braces. -/
def Fault.isLenient : Fault → Bool
  | .hashComment _ | .floatMark _ => true
  | _ => false

end DescriptorKit.Language
