import DescriptorKit.Text.Property.Range

/-!
Whether a source says which version of the language it is in. Only its beginning is looked at:
blanks and comments, and the word behind them.
-/
namespace DescriptorKit.Source

def byteOrderMark : Char := Char.ofNat 0xfeff

/-- What follows the next line end. -/
def afterLine : List Char → List Char
  | [] => []
  | '\n' :: rest => rest
  | _ :: rest => afterLine rest

/-- What follows the end of a block comment, nothing if it has none. -/
def afterBlock : List Char → List Char
  | [] => []
  | '*' :: '/' :: rest => rest
  | _ :: rest => afterBlock rest

/-- What follows blanks and comments. Each step leaves a shorter text. -/
def skipWithin : (fuel : Nat) → List Char → List Char
  | 0, cs => cs
  | fuel + 1, cs =>
    match cs.dropWhile Text.isBlank with
    | '/' :: '/' :: rest => skipWithin fuel (afterLine rest)
    | '/' :: '*' :: rest => skipWithin fuel (afterBlock rest)
    | rest => rest

def skipIgnored (cs : List Char) : List Char := skipWithin (cs.length + 1) cs

def isWordChar (c : Char) : Bool := c.isAlphanum || c = '_'

/-- Whether the first word of a source is `syntax` or `edition`. -/
def declaresDialect (source : String) : Bool :=
  let rest := skipIgnored (source.toList.dropWhile (· = byteOrderMark))
  let word := rest.takeWhile isWordChar
  word = "syntax".toList || word = "edition".toList

end DescriptorKit.Source
