import DescriptorKit.Text.Numeral

/-!
The pieces that messages written as text consist of.
-/
namespace DescriptorKit.Text.Format

inductive Token where
  | word (s : String)
  | number (n : Numeral)
  | bytes (b : Bytes)
  | mark (c : Char)

def isBlank (c : Char) : Bool :=
  c = ' ' || c = '\n' || c = '\t' || c = '\r' || c = '\x0b' || c = '\x0c'

def isWordStart (c : Char) : Bool := c.isAlpha || c = '_'

def isWordChar (c : Char) : Bool := c.isAlphanum || c = '_'

/-- The token of the characters of a number, where `rest` follows them. A word may start right
behind an integer only where that is a zero by itself. -/
def numberToken? (cs rest : List Char) : Option Token :=
  match Numeral.ofSpelling? cs with
  | some (.int base n) =>
    if Numeral.breaksOctal cs || (!Numeral.isZero cs && rest.head?.any isWordStart) then none
    else some (.number (.int base n))
  | n => n.map .number

/-- The characters up to the closing quote, escapes kept, and what follows it. A line does not end
between quotes, and no NUL stands there. -/
def untilQuote (quote : Char) : List Char → Option (List Char × List Char)
  | [] => none
  | '\\' :: c :: rest => (untilQuote quote rest).map fun (s, r) => ('\\' :: c :: s, r)
  | c :: rest =>
    if c = quote then some ([], rest)
    else if c = '\n' ∨ c = '\x00' then none
    else (untilQuote quote rest).map fun (s, r) => (c :: s, r)

/-- The tokens of a text. Each step uses up a character at least. -/
def tokensWithin : (fuel : Nat) → List Char → Option (List Token)
  | _, [] => some []
  | 0, _ => none
  | fuel + 1, c :: rest =>
    if isBlank c then tokensWithin fuel rest
    else if c = '#' then tokensWithin fuel (rest.dropWhile (· ≠ '\n'))
    else if isWordStart c then
      (tokensWithin fuel (rest.dropWhile isWordChar)).map
        (.word (String.ofList (c :: rest.takeWhile isWordChar)) :: ·)
    else if Numeral.starts c rest then
      let cs := Numeral.spelling (c :: rest)
      let after := rest.drop (cs.length - 1)
      match numberToken? cs after with
      | some t => (tokensWithin fuel after).map (t :: ·)
      | none => none
    else if c = '"' ∨ c = '\'' then
      match untilQuote c rest with
      | some (s, r) =>
        match Literal.unescape s with
        | some b => (tokensWithin fuel r).map (.bytes b :: ·)
        | none => none
      | none => none
    else (tokensWithin fuel rest).map (.mark c :: ·)

def tokens? (text : String) : Option (List Token) := tokensWithin text.length text.toList

end DescriptorKit.Text.Format
