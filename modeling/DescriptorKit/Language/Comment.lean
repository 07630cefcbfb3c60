import DescriptorKit.Language.Lexer

/-!
Which declarations the comments between two tokens belong to. A line comment that follows the first
token on its line, and any comment on that line or the next with a blank line behind it, belongs to
the declaration that ends there. The last comments before the second token belong to the declaration
that starts there, unless a scope is closed instead. Comments set apart by blank lines are detached.
-/
namespace DescriptorKit.Language

/-- The comments between two tokens. -/
structure Gap where
  trailing : Option String := none
  detached : List String := []
  leading : Option String := none

/-- The comments of a declaration. -/
structure Comments where
  leading : Option String := none
  trailing : Option String := none
  detached : List String := []

namespace Gap

/-- Comments sorted so far. -/
structure Sorter where
  trailing : Option String := none
  /-- The last one first. -/
  detached : List String := []
  /-- Lines of comment that belong together, and whether each is a line of its own. -/
  pending : Option (Bool × String) := none
  /-- Whether a comment may still belong to the declaration before. -/
  attaches : Bool := true

namespace Sorter

/-- Decides on the pending comment. -/
def flush (s : Sorter) : Sorter :=
  match s.pending with
  | none => s
  | some (_, text) =>
    if s.attaches then { s with trailing := some text, attaches := false, pending := none }
    else { s with detached := text :: s.detached, pending := none }

def detach (s : Sorter) : Sorter := { s with attaches := false }

/-- Line comments on consecutive lines make one comment. -/
def addLine (s : Sorter) (text : String) : Sorter :=
  match s.pending with
  | some (true, earlier) => { s with pending := some (true, earlier ++ text) }
  | _ => { s.flush with pending := some (true, text) }

def addBlock (s : Sorter) (text : String) : Sorter := { s.flush with pending := some (false, text) }

/-- Sorts what stands on lines of its own. -/
def lines : List Trivia → Sorter → Sorter
  | [], s => s
  | .newline :: rest, s => lines rest s.flush.detach
  | .line text :: .newline :: rest, s => lines rest (s.addLine (text ++ "\n"))
  | .line text :: rest, s => lines rest (s.addLine text)
  | .block text :: .newline :: rest, s => lines rest (s.addBlock text)
  | .block text :: rest, s => lines rest (s.addBlock text)

/-- What the comments come to in front of the second token, which may close a scope. -/
def gap (closes : Bool) (s : Sorter) : Gap :=
  let s := if closes then s.flush else s
  ⟨s.trailing, s.detached.reverse, s.pending.map (·.2)⟩

end Sorter

/-- The comments in front of the first token of a source. -/
def first (closes : Bool) (ts : List Trivia) : Gap :=
  (Sorter.lines ts { attaches := false }).gap closes

/-- The comments behind a token. A line comment there ends what belongs to the token. A block
comment waits for what follows: right above the second token it belongs to that one. One with more
on its line belongs to nothing. -/
def behind (closes : Bool) : List Trivia → Gap
  | [] => {}
  | .newline :: rest => (Sorter.lines rest {}).gap closes
  | .line text :: .newline :: rest =>
    (Sorter.lines rest (({} : Sorter).addLine (text ++ "\n")).flush).gap closes
  | .line text :: rest => (Sorter.lines rest (({} : Sorter).addLine text).flush).gap closes
  | .block text :: .newline :: rest =>
    (Sorter.lines rest (({} : Sorter).addBlock text)).gap closes
  | .block _ :: _ => {}

end Gap
end DescriptorKit.Language
