import DescriptorKit.Schema.Scalar
import DescriptorKit.Text.Property.Printable

/-!
Text in double quotes, with escapes for whatever would not show, and scalar values as text. Byte
strings stand in quotes, with escapes for bytes that are not printable ASCII.
-/
namespace DescriptorKit.Text

def hexDigit (n : Nat) : Char := if n < 10 then Char.ofNat (48 + n) else Char.ofNat (87 + n)

/-- The hexadecimal digits of a number, at most `fuel` of them, in front of `rest`. -/
def hexWithin : (fuel : Nat) → Nat → List Char → List Char
  | 0, _, rest => rest
  | fuel + 1, n, rest =>
    if n < 16 then hexDigit n :: rest else hexWithin fuel (n / 16) (hexDigit (n % 16) :: rest)

def escaped (c : Char) : List Char :=
  match c with
  | '"' => ['\\', '"']
  | '\\' => ['\\', '\\']
  | '\t' => ['\\', 't']
  | '\r' => ['\\', 'r']
  | '\n' => ['\\', 'n']
  | '\x00' => ['\\', '0']
  | c =>
    if isPrintable c then [c]
    else ['\\', 'u', '\x7b'] ++ hexWithin 6 c.toNat ['\x7d']

def quoted (s : String) : String :=
  String.ofList (['"'] ++ s.toList.flatMap escaped ++ ['"'])

namespace Format

def octal (b : UInt8) : List Char :=
  let n := b.toNat
  ['\\', Char.ofNat (48 + n / 64), Char.ofNat (48 + n / 8 % 8), Char.ofNat (48 + n % 8)]

def hexadecimal (b : UInt8) : List Char :=
  ['\\', 'x', hexDigit (b.toNat / 16), hexDigit (b.toNat % 16)]

/-- A byte between quotes. Those that are not printable and have no letter are given by `number`. -/
def byteTextBy (number : UInt8 → List Char) (b : UInt8) : List Char :=
  if b = 9 then ['\\', 't']
  else if b = 10 then ['\\', 'n']
  else if b = 13 then ['\\', 'r']
  else if b = 34 then ['\\', '"']
  else if b = 39 then ['\\', '\'']
  else if b = 92 then ['\\', '\\']
  else if 32 ≤ b && b < 127 then [Char.ofNat b.toNat]
  else number b

def byteText : UInt8 → List Char := byteTextBy octal

/-- Bytes in quotes, with octal escapes. -/
def quoteBytes (b : Bytes) : String :=
  String.ofList (['"'] ++ b.flatMap byteText ++ ['"'])

/-- Bytes in quotes, with hexadecimal escapes. -/
def quoteBytesHex (b : Bytes) : String :=
  String.ofList (['"'] ++ b.flatMap (byteTextBy hexadecimal) ++ ['"'])

/-- A scalar value as text. Floating-point numbers, which no message shows, are given by their
bits. -/
def scalarText : Scalar → String
  | .double bits => toString bits
  | .float bits => toString bits
  | .int64 n => toString n.toInt
  | .uint64 n => toString n.toNat
  | .int32 n => toString n.toInt
  | .uint32 n => toString n.toNat
  | .bool b => toString b
  | .string s => quoteBytes (Bytes.ofText s)
  | .bytes b => quoteBytes b
  | .enum n => toString n.toInt

end Format
end DescriptorKit.Text
