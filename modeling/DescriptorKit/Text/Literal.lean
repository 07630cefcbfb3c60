import DescriptorKit.Schema.Scalar

/-!
Scalar values as text spells them: numbers, and byte strings with escapes.
-/
namespace DescriptorKit.Text.Literal

/-- The number that digits of a base spell, the most significant one first. -/
def natOf (base : Nat) (digits : List Nat) : Nat := digits.foldl (fun n d => n * base + d) 0

def digit? (base : Nat) (c : Char) : Option Nat :=
  let n := c.toNat
  let d :=
    if 48 ≤ n ∧ n ≤ 57 then n - 48
    else if 97 ≤ n ∧ n ≤ 122 then n - 87
    else if 65 ≤ n ∧ n ≤ 90 then n - 55
    else base
  if d < base then some d else none

/-- A number without sign, written with at least one digit and nothing else. -/
def nat? (base : Nat) (cs : List Char) : Option Nat :=
  if cs = [] then none else (cs.mapM (digit? base)).map (natOf base)

/-- A number that may have a plus in front of it. -/
def plusNat? (base : Nat) (cs : List Char) : Option Nat :=
  match cs with
  | '+' :: rest => nat? base rest
  | rest => nat? base rest

def int? (cs : List Char) : Option Int :=
  match cs with
  | '-' :: rest => (nat? 10 rest).map fun n => -(n : Int)
  | rest => (plusNat? 10 rest).map fun n => (n : Int)

/-- A decimal number without sign: digits, a point with digits behind it, a power of ten. -/
def decimal? (cs : List Char) : Option Float :=
  let isDigit (c : Char) : Bool := c.isDigit
  let whole := cs.takeWhile isDigit
  let rest := cs.dropWhile isDigit
  let (fraction, rest) := match rest with
    | '.' :: rest => (rest.takeWhile isDigit, rest.dropWhile isDigit)
    | rest => ([], rest)
  let exponent := match rest with
    | [] => some 0
    | c :: rest => if c = 'e' ∨ c = 'E' then int? rest else none
  match nat? 10 (whole ++ fraction), exponent with
  | some mantissa, some e =>
    -- Beyond 400 places the number is zero or infinite, however far beyond.
    let digits : Int := (whole ++ fraction).length
    let scale := max (-400 - digits) (min 400 (e - fraction.length))
    some (Float.ofScientific mantissa (scale < 0) scale.natAbs)
  | _, _ => none

/-- The number that has a name and no digits. -/
def named? (cs : List Char) : Option Float :=
  let name := cs.map Char.toLower
  if name = "inf".toList ∨ name = "infinity".toList then some (1.0 / 0.0)
  else if name = "nan".toList then some (0.0 / 0.0)
  else none

/-- The bits of a number whose sign is given apart. -/
def doubleBits (negative : Bool) (x : Float) : UInt64 :=
  if negative then x.toBits ||| 0x8000000000000000 else x.toBits

/-- The bits of the nearest number of half the width. -/
def floatBits (negative : Bool) (x : Float) : UInt32 :=
  let bits := x.toFloat32.toBits
  if negative then bits ||| 0x80000000 else bits

/-- A number in digits or by name, and whether it is negative. -/
def float? (cs : List Char) : Option (Bool × Float) :=
  let (negative, body) := match cs with
    | '-' :: rest => (true, rest)
    | '+' :: rest => (false, rest)
    | rest => (false, rest)
  (named? body <|> decimal? body).map fun x => (negative, x)

/-- The byte that a single character behind a backslash stands for. -/
def letterEscape? (c : Char) : Option UInt8 :=
  match c with
  | 'a' => some 7
  | 'b' => some 8
  | 'f' => some 12
  | 'n' => some 10
  | 'r' => some 13
  | 't' => some 9
  | 'v' => some 11
  | '?' => some 63
  | '\\' => some 92
  | '\'' => some 39
  | '"' => some 34
  | _ => none

/-- At most three octal digits at the start of a text. -/
def octalDigits (cs : List Char) : List Char :=
  (cs.take 3).takeWhile fun c => (digit? 8 c).isSome

/-- The value of an escape sequence without its backslash, and what follows it. -/
def escape? : List Char → Option (Bytes × List Char)
  | 'x' :: r => hex r
  | 'X' :: r => hex r
  | 'u' :: r => codePoint 4 r
  | 'U' :: r => codePoint 8 r
  | c :: r =>
    match letterEscape? c with
    | some b => some ([b], r)
    | none =>
      let ds := octalDigits (c :: r)
      match nat? 8 ds with
      | some n => if n < 256 then some ([n.toUInt8], (c :: r).drop ds.length) else none
      | none => none
  | [] => none
where
  hex (r : List Char) : Option (Bytes × List Char) :=
    let ds := (r.take 2).takeWhile fun c => (digit? 16 c).isSome
    (nat? 16 ds).map fun n => ([n.toUInt8], r.drop ds.length)
  codePoint (width : Nat) (r : List Char) : Option (Bytes × List Char) :=
    if (r.take width).length = width then
      match nat? 16 (r.take width) with
      | some n =>
        if n.isValidChar then
          some (Bytes.ofText (String.singleton (Char.ofNat n)), r.drop width)
        else none
      | none => none
    else none

/-- The value of an escape sequence in the default of a field of bytes, without its backslash, and
what follows it. There a byte in hexadecimal has two characters, no characters are given by their
code point, and of an octal number that is too large the lowest eight bits count. -/
def defaultEscape? : List Char → Option (Bytes × List Char)
  | [] => none
  | c :: r =>
    match letterEscape? c with
    | some b => some ([b], r)
    | none =>
      if c = 'x' ∨ c = 'X' then
        if (r.take 2).length = 2 then
          (plusNat? 16 (r.take 2)).map fun n => ([n.toUInt8], r.drop 2)
        else none
      else
        let ds := octalDigits (c :: r)
        (nat? 8 ds).map fun n => ([n.toUInt8], (c :: r).drop ds.length)

/-- The bytes that a text with escapes of some form spells. Each step uses up a character at
least. -/
def unescapeWithin (escape : List Char → Option (Bytes × List Char)) :
    (fuel : Nat) → List Char → Option Bytes
  | 0, [] => some []
  | 0, _ => none
  | _ + 1, [] => some []
  | fuel + 1, '\\' :: rest =>
    match escape rest with
    | some (b, rest) => (unescapeWithin escape fuel rest).map (b ++ ·)
    | none => none
  | fuel + 1, c :: rest =>
    (unescapeWithin escape fuel rest).map (Bytes.ofText (String.singleton c) ++ ·)

def unescape (cs : List Char) : Option Bytes := unescapeWithin escape? cs.length cs

def unescapeDefault (cs : List Char) : Option Bytes := unescapeWithin defaultEscape? cs.length cs

/-- The value of a kind that the default of a field spells. Kinds without signs take no minus. -/
def scalarOf? (k : ScalarKind) (text : String) : Option Scalar :=
  let cs := text.toList
  match k with
  | .double => (float? cs).map fun (negative, x) => .double (doubleBits negative x)
  | .float => (float? cs).map fun (negative, x) => .float (floatBits negative x)
  | .bool =>
    if text = "true" then some (.bool true)
    else if text = "false" then some (.bool false)
    else none
  | .string => some (.string text)
  | .bytes => (unescapeDefault cs).map .bytes
  | k =>
    if k.isSigned then (int? cs).bind k.ofInt? else (plusNat? 10 cs).bind fun n => k.ofInt? n

end DescriptorKit.Text.Literal
