import DescriptorKit.Text.Literal

/-!
Numbers at the start of a text, in a source as well as in a message written as text: hexadecimal
behind `0x`, octal behind `0`, and decimal, where a fraction or a power of ten may follow.
-/
namespace DescriptorKit.Text

/-- A number without sign. An integer keeps the base that it is written in. -/
inductive Numeral where
  | int (base n : Nat)
  | float (x : Float)

namespace Numeral

def isHex (c : Char) : Bool := (Literal.digit? 16 c).isSome

def isOctal (c : Char) : Bool := (Literal.digit? 8 c).isSome

def isFloatMark (c : Char) : Bool := c = 'f' || c = 'F'

/-- The mark of a power of ten with its sign and digits, if it has digits. -/
def exponent (cs : List Char) : List Char :=
  match cs with
  | e :: rest =>
    if e = 'e' ∨ e = 'E' then
      let sign := (rest.take 1).filter fun c => c = '+' || c = '-'
      let digits := (rest.drop sign.length).takeWhile Char.isDigit
      if digits = [] then [] else e :: (sign ++ digits)
    else []
  | [] => []

/-- The fraction of a number: a point, and digits behind it. -/
def fraction (cs : List Char) : List Char :=
  match cs with
  | '.' :: rest => '.' :: rest.takeWhile Char.isDigit
  | _ => []

def isHexMark (cs : List Char) : Bool :=
  match cs with
  | '0' :: x :: d :: _ => (x = 'x' || x = 'X') && isHex d
  | _ => false

/-- Whether a number starts here. -/
def starts (c : Char) (rest : List Char) : Bool :=
  c.isDigit || (c = '.' && rest.head?.any Char.isDigit)

/-- The characters of a number at the start of a text. A letter behind them makes a number of digits
no integer, unless the digits are octal. -/
def spelling (cs : List Char) : List Char :=
  if isHexMark cs then cs.take 2 ++ (cs.drop 2).takeWhile isHex
  else
    let whole := cs.takeWhile Char.isDigit
    let point := fraction (cs.drop whole.length)
    let power := exponent (cs.drop (whole.length + point.length))
    let number := whole ++ point ++ power
    let mark := ((cs.drop number.length).take 1).filter isFloatMark
    if point ≠ [] ∨ power ≠ [] then number ++ mark
    else if whole.length ≤ 1 ∨ whole.head? ≠ some '0' then whole ++ mark
    else whole

/-- Whether an integer is a zero by itself: no octal digit follows its first digit, and what else
follows does not count. -/
def isZero (cs : List Char) : Bool := !isHexMark cs && (cs.takeWhile isOctal) = ['0']

/-- Whether the digits behind a zero begin as octal ones and do not go on so. -/
def breaksOctal (cs : List Char) : Bool :=
  !isHexMark cs && cs.head? = some '0' && cs.all Char.isDigit && !cs.all isOctal &&
    1 < (cs.takeWhile isOctal).length

/-- The number that characters spell. Digits behind a zero that are not octal do not count. -/
def ofSpelling? (cs : List Char) : Option Numeral :=
  if isHexMark cs then (Literal.nat? 16 (cs.drop 2)).map (.int 16)
  else if cs.all Char.isDigit then
    if isZero cs then some (.int 10 0)
    else if cs.head? = some '0' then (Literal.nat? 8 (cs.takeWhile isOctal)).map (.int 8)
    else (Literal.nat? 10 cs).map (.int 10)
  else (Literal.decimal? (cs.filter fun c => !isFloatMark c)).map .float

end Numeral
end DescriptorKit.Text
