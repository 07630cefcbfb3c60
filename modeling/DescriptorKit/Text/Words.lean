import DescriptorKit.Text.Property.Alphanumeric
import DescriptorKit.Text.Property.LetterCase

/-!
Names as sequences of words. A word ends where the characters stop being letters and numbers, before
an upper-case letter that follows a lower-case one, and before the last of several upper-case
letters when a lower-case letter follows.
-/
namespace DescriptorKit.Text

/-- The case of the last cased letter of a word, if it has one yet. -/
inductive Mode where
  | none
  | lower
  | upper
  deriving DecidableEq

/-- The mode after another character. What has no case keeps it. -/
def Mode.after (mode : Mode) (c : Char) : Mode :=
  if isLowercase c then .lower else if isUppercase c then .upper else mode

/-- The words of a run of letters and numbers. Of the word being read, the characters are given last
one first. -/
def wordsOf : Mode → List Char → List Char → List (List Char)
  | _, [], [] => []
  | _, word, [] => [word.reverse]
  | _, word, [c] => [(c :: word).reverse]
  | mode, word, c :: next :: rest =>
    if mode.after c = .lower ∧ isUppercase next then
      (c :: word).reverse :: wordsOf .none [] (next :: rest)
    else if mode = .upper ∧ isUppercase c ∧ isLowercase next then
      word.reverse :: wordsOf .none [c] (next :: rest)
    else wordsOf (mode.after c) (c :: word) (next :: rest)

/-- The maximal runs of letters and numbers; some may be empty. -/
def runs : List Char → List (List Char)
  | [] => [[]]
  | c :: rest =>
    if isAlphanumeric c then
      match runs rest with
      | [] => [[c]]
      | r :: rs => (c :: r) :: rs
    else [] :: runs rest

/-- Lower-case letters; a sigma that ends the word has a form of its own. -/
def lowerWord : List Char → List Char
  | [] => []
  | [c] => if c = 'Σ' then ['ς'] else toLower c
  | c :: rest => toLower c ++ lowerWord rest

def capitalize : List Char → List Char
  | [] => []
  | c :: rest => toUpper c ++ lowerWord rest

/-- All words of a name, each with an upper-case first letter, without anything between them. -/
def camelCase (name : String) : String :=
  String.ofList (((runs name.toList).flatMap (wordsOf .none [])).flatMap capitalize)

end DescriptorKit.Text
