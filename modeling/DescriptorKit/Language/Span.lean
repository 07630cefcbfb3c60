import DescriptorKit.Bytes

/-!
Places in a source text. They are counted in bytes of its UTF-8 form.
-/
namespace DescriptorKit.Language

/-- The bytes from `start` up to but not including `stop`. -/
structure Span where
  start : Nat
  stop : Nat
  deriving DecidableEq, Repr

def Span.length (s : Span) : Nat := s.stop - s.start

/-- From the start of one span to the end of another. -/
def Span.to (a b : Span) : Span := ⟨a.start, b.stop⟩

/-- Line and column of a byte, both counted from zero. -/
structure Position where
  line : Nat := 0
  column : Nat := 0
  deriving DecidableEq, Repr

namespace Position

/-- Behind one more byte. Lines end at line feeds alone. -/
def after (p : Position) (b : UInt8) : Position :=
  if b = 10 then ⟨p.line + 1, 0⟩ else ⟨p.line, p.column + 1⟩

/-- The position behind the first bytes of a text. -/
def ofOffset (source : Bytes) (offset : Nat) : Position :=
  (source.take offset).foldl after {}

/-- The position that a reader of the text is pointed to. A carriage return ends a line as well, and
together with a line feed behind it ends one line. -/
def shown (start : Nat) : (offset : Nat) → Position → Bytes → Position
  | _, p, [] => p
  | offset, p, 13 :: 10 :: rest =>
    if offset + 1 < start then shown start (offset + 2) ⟨p.line + 1, 0⟩ rest else p
  | offset, p, b :: rest =>
    if offset < start then
      shown start (offset + 1) (if b = 10 ∨ b = 13 then ⟨p.line + 1, 0⟩ else ⟨p.line, p.column + 1⟩)
        rest
    else p

/-- The byte of the first character that stands as far down and as far to the right as `p` asks for,
where columns are counted in characters. That is the end of the text where no character does. -/
def locate (p : Position) : (line column offset : Nat) → List Char → Nat
  | _, _, offset, [] => offset
  | line, column, offset, c :: rest =>
    if p.line ≤ line ∧ p.column ≤ column then offset
    else if c = '\n' then locate p (line + 1) 0 (offset + 1) rest
    else locate p line (column + 1) (offset + c.utf8Size) rest

/-- Where a reader finds a byte whose line and column are all that is known of it: the column is
that of a byte, and is taken for that of a character. The end of the text is no place. -/
def relocate? (source : Bytes) (offset : Nat) : Option Nat :=
  let found :=
    match Bytes.text? source with
    | some s => (ofOffset source offset).locate 0 0 0 s.toList
    | none => offset
  if found < source.length then some found else none

end Position

/-- Whether the span starts and ends on the same line. -/
def Span.onOneLine (source : Bytes) (s : Span) : Bool :=
  (Position.ofOffset source s.start).line = (Position.ofOffset source s.stop).line
end DescriptorKit.Language
