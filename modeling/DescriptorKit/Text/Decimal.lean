/-!
The shortest decimal text of a floating-point number: of the decimals that are read back as the
number, one with the fewest digits, and of these the nearest. Exact arithmetic decides.
-/
namespace DescriptorKit.Text.Decimal

/-- A finite positive number `mantissa * 2 ^ exponent`. -/
structure Binary where
  mantissa : Nat
  exponent : Int

/-- The number in the low 63 bits of a double, if it is finite. -/
def Binary.ofBits? (bits : UInt64) : Option Binary :=
  let n := bits.toNat % 0x8000000000000000
  let e : Nat := n / 0x10000000000000
  let m : Nat := n % 0x10000000000000
  if e = 2047 then none
  else if e = 0 then some ⟨m, -1074⟩
  else some ⟨m + 0x10000000000000, (e : Int) - 1075⟩

/-- A positive rational number. -/
structure Ratio where
  num : Nat
  den : Nat

/-- `n * 2 ^ e / 4` -/
def Ratio.quarters (n : Nat) (e : Int) : Ratio :=
  if 0 ≤ e then ⟨n * Nat.pow 2 e.toNat, 4⟩ else ⟨n, 4 * Nat.pow 2 (-e).toNat⟩

/-- Whether `n * 10 ^ p` is at most the number. -/
def Ratio.covers (r : Ratio) (n : Nat) (p : Int) : Bool :=
  if 0 ≤ p then n * Nat.pow 10 p.toNat * r.den ≤ r.num
  else n * r.den ≤ r.num * Nat.pow 10 (-p).toNat

/-- The greatest `n` with `n * 10 ^ p` at most the number. -/
def Ratio.floor (r : Ratio) (p : Int) : Nat :=
  if 0 ≤ p then r.num / (r.den * Nat.pow 10 p.toNat)
  else r.num * Nat.pow 10 (-p).toNat / r.den

/-- What is read back as the number lies between the two bounds, which belong to it or not. -/
structure Interval where
  low : Ratio
  high : Ratio
  closed : Bool

def Binary.interval (b : Binary) : Interval :=
  let narrow := b.mantissa = 0x10000000000000 && b.exponent ≠ -1074
  { low := Ratio.quarters (4 * b.mantissa - (if narrow then 1 else 2)) b.exponent
    high := Ratio.quarters (4 * b.mantissa + 2) b.exponent
    closed := b.mantissa % 2 = 0 }

/-- Whether `n * 10 ^ p` lies in the interval. -/
def Interval.holds (i : Interval) (n : Nat) (p : Int) : Bool :=
  if i.closed then
    i.high.covers n p &&
      (if 0 ≤ p then i.low.num ≤ n * Nat.pow 10 p.toNat * i.low.den
        else i.low.num * Nat.pow 10 (-p).toNat ≤ n * i.low.den)
  else
    !i.low.covers n p &&
      (if 0 ≤ p then n * Nat.pow 10 p.toNat * i.high.den < i.high.num
        else n * i.high.den < i.high.num * Nat.pow 10 (-p).toNat)

/-- The power of ten at or below the number, searched downwards from `p`. -/
def magnitude (r : Ratio) : (fuel : Nat) → Int → Int
  | 0, p => p
  | fuel + 1, p => if r.covers 1 p then p else magnitude r fuel (p - 1)

/-- The nearest of the grid points around the number that are read back as it. -/
def pick? (r : Ratio) (i : Interval) (p : Int) : Option Nat :=
  let low := r.floor p
  match i.holds low p, i.holds (low + 1) p with
  | true, false => some low
  | false, true => some (low + 1)
  | false, false => none
  | true, true =>
    -- Twice the number is compared with the sum of both points.
    if (⟨2 * r.num, r.den⟩ : Ratio).covers (2 * low + 1) p then some (low + 1) else some low

/-- Digits and a power of ten, found on the first grid that has a point. -/
def search (r : Ratio) (i : Interval) (top : Int) : (digits : Nat) → (fuel : Nat) → Nat × Int
  | digits, 0 => (r.floor (top - digits), top - digits)
  | digits, fuel + 1 =>
    let p := top - digits
    match pick? r i p with
    | some n => (n, p)
    | none => search r i top (digits + 1) fuel

/-- `n * 10 ^ p` without an exponent. -/
def positional (n : Nat) (p : Int) : String :=
  let digits := toString n
  if 0 ≤ p then digits ++ String.ofList (List.replicate p.toNat '0')
  else
    let places := (-p).toNat
    let padded := List.replicate (places + 1 - digits.length) '0' ++ digits.toList
    let whole := padded.take (padded.length - places)
    let fraction := (padded.drop (padded.length - places)).reverse.dropWhile (· = '0')
    if fraction = [] then String.ofList whole
    else String.ofList (whole ++ '.' :: fraction.reverse)

/-- The text of the double with the given bits. -/
def ofBits (bits : UInt64) : String :=
  let sign := if bits.toNat < 0x8000000000000000 then "" else "-"
  match Binary.ofBits? bits with
  | none => if bits.toNat % 0x10000000000000 = 0 then sign ++ "inf" else "NaN"
  | some b =>
    if b.mantissa = 0 then sign ++ "0"
    else
      let r := Ratio.quarters (4 * b.mantissa) b.exponent
      let (n, p) := search r b.interval (magnitude r 700 310) 0 18
      sign ++ positional n p

/-- The number, if it has no fraction. -/
def Binary.whole? (b : Binary) : Option Nat :=
  if 0 ≤ b.exponent then some (b.mantissa * Nat.pow 2 b.exponent.toNat)
  else
    let unit := Nat.pow 2 (-b.exponent).toNat
    if b.mantissa % unit = 0 then some (b.mantissa / unit) else none

/-- The text of a double that no reader takes for an integer: one without a fraction is given
digit by digit with a zero behind the point. -/
def pointed (bits : UInt64) : String :=
  match (Binary.ofBits? bits).bind Binary.whole? with
  | none => ofBits bits
  | some n => (if bits.toNat < 0x8000000000000000 then "" else "-") ++ toString n ++ ".0"

end DescriptorKit.Text.Decimal
