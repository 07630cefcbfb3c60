import DescriptorKit.Language.Fault
import DescriptorKit.Text.Numeral
import DescriptorKit.Text.Property.Range

/-!
Cutting a source into tokens. What stands between two tokens is kept with the second one: line ends
and comments, which the comments of declarations are made of.
-/
namespace DescriptorKit.Language

/-- What stands between tokens, blanks aside. -/
inductive Trivia where
  | newline
  /-- A comment up to the end of the line, which does not belong to it. -/
  | line (text : String)
  | block (text : String)
  deriving DecidableEq, Repr

structure Lexeme where
  token : Token
  span : Span
  before : List Trivia
  /-- What was wrong with the text since the token before. -/
  faults : List Fault

/-- A source in tokens. -/
structure Lexed where
  lexemes : List Lexeme
  /-- What stands behind the last token. -/
  trivia : List Trivia
  /-- What is wrong behind the last token. -/
  faults : List Fault
  /-- Whether the last of the faults kept the rest from being read. -/
  stuck : Bool

namespace Lexer
open Text

/-- The length of a text in bytes. -/
def size : List Char → Nat
  | [] => 0
  | c :: rest => c.utf8Size + size rest

def isWordStart (c : Char) : Bool := c.isAlpha || c = '_'

def isWordChar (c : Char) : Bool := c.isAlphanum || c = '_'

def isSpace (c : Char) : Bool := c = ' ' || c = '\t' || c = '\r' || c = '\x0b' || c = '\x0c'

def isMark (c : Char) : Bool := ".-()[]\x7b\x7d<>,=:+;/".toList.contains c

/-- The token of a number. -/
def numberToken : Numeral → Token
  | .int _ n => .int n
  | .float x => .float x.toBits

/-- How many characters in front of the digits of an integer tell its base. -/
def baseMark (cs : List Char) : Nat :=
  if Numeral.isHexMark cs then 2 else if cs.head? = some '0' ∧ cs.length ≠ 1 then 1 else 0

/-- What is wrong with a number that starts at a byte, given what follows it. A word may start right
behind a zero. -/
def numberFaults (offset : Nat) (cs : List Char) (t : Token) (rest : List Char) : List Fault :=
  let stop := offset + cs.length
  match t with
  | .int n =>
    let digits : Span := ⟨offset + baseMark cs, stop⟩
    (if !Numeral.isZero cs && rest.head?.any isWordStart then [.joined digits] else []) ++
      (if 0x10000000000000000 ≤ n || Numeral.breaksOctal cs then [.integerTooLarge digits] else [])
  | _ =>
    if cs.getLast? = some 'f' ∨ cs.getLast? = some 'F' then [.floatMark ⟨offset, stop⟩] else []

/-- The bytes of a text up to its closing quote, what follows it, and where that starts. -/
def quotedText (quote : Char) : (fuel offset : Nat) → List Char →
    Except Fault (Bytes × List Char × Nat)
  | _, _, [] => .error (.ended "string terminator")
  | 0, _, _ => .error (.ended "string terminator")
  | fuel + 1, offset, c :: rest =>
    let here : Span := ⟨offset, offset + c.utf8Size⟩
    if c = quote then .ok ([], rest, here.stop)
    else if c = '\n' then .error (.unclosedText here)
    else if c = '\x00' then .error (.textCharacter here)
    else if c = '\\' then
      match Literal.escape? rest with
      | none => .error (.escape here)
      | some (b, after) =>
        match quotedText quote fuel (here.stop + size (rest.take (rest.length - after.length)))
          after with
        | .ok (bs, r) => .ok (b ++ bs, r)
        | .error f => .error f
    else
      match quotedText quote fuel here.stop rest with
      | .ok (bs, r) => .ok (Bytes.ofText (String.singleton c) ++ bs, r)
      | .error f => .error f

/-- A comment read up to its end: its text, what is wrong with it, and what follows it, if it has an
end. -/
structure Comment where
  text : List Char
  faults : List Fault
  rest : Option (List Char)

/-- The rest of a comment that may span lines. Blank lines do not belong to the text, nor do blanks
and an asterisk at the start of a line, nor a carriage return at its end. -/
def blockComment : (fuel offset : Nat) → List Char → Comment
  | 0, _, _ => ⟨[], [], none⟩
  | _, _, [] => ⟨[], [], none⟩
  | _ + 1, _, '*' :: '/' :: rest => ⟨[], [], some rest⟩
  | fuel + 1, offset, '/' :: '*' :: rest =>
    let c := blockComment fuel (offset + 1) ('*' :: rest)
    { c with text := '/' :: c.text, faults := .nestedComment ⟨offset, offset + 2⟩ :: c.faults }
  | fuel + 1, offset, '\r' :: '\n' :: rest => blockComment fuel (offset + 1) ('\n' :: rest)
  | fuel + 1, offset, '\n' :: rest =>
    let blanks := rest.takeWhile Text.isBlank
    let line := rest.drop blanks.length
    let (star, line) := match line with
      | '*' :: '/' :: _ => (0, line)
      | '*' :: line => (1, line)
      | line => (0, line)
    let c := blockComment fuel (offset + 1 + size blanks + star) line
    { c with text := '\n' :: c.text }
  | fuel + 1, offset, c :: rest =>
    let d := blockComment fuel (offset + c.utf8Size) rest
    { d with text := c :: d.text }

/-- The text of a comment up to the end of its line. -/
def lineText (text : List Char) (rest : List Char) : String :=
  String.ofList (if rest.head? = some '\n' ∧ text.getLast? = some '\r' then text.dropLast else text)

/-- What has been read: tokens, and trivia and faults since the last one, all last one first. -/
structure Progress where
  lexemes : List Lexeme := []
  trivia : List Trivia := []
  faults : List Fault := []

namespace Progress

def between (p : Progress) (t : Trivia) (faults : List Fault) : Progress :=
  { p with trivia := t :: p.trivia, faults := faults.reverse ++ p.faults }

def push (p : Progress) (t : Token) (span : Span) (faults : List Fault) : Progress :=
  ⟨⟨t, span, p.trivia.reverse, p.faults.reverse ++ faults⟩ :: p.lexemes, [], []⟩

def finish (p : Progress) : Lexed := ⟨p.lexemes.reverse, p.trivia.reverse, p.faults.reverse, false⟩

def stop (p : Progress) (f : Fault) : Lexed :=
  ⟨p.lexemes.reverse, p.trivia.reverse, (f :: p.faults).reverse, true⟩

end Progress

/-- Reads on at a byte. Each step uses up a character at least. -/
def run : (fuel offset : Nat) → Progress → List Char → Lexed
  | 0, _, p, _ => p.finish
  | _ + 1, _, p, [] => p.finish
  | fuel + 1, offset, p, '\n' :: rest => run fuel (offset + 1) (p.between .newline []) rest
  | fuel + 1, offset, p, '/' :: '/' :: rest =>
    let text := rest.takeWhile (· ≠ '\n')
    let after := rest.drop text.length
    run fuel (offset + 2 + size text) (p.between (.line (lineText text after)) []) after
  | fuel + 1, offset, p, '/' :: '*' :: rest =>
    let c := blockComment (rest.length + 1) (offset + 2) rest
    let p := p.between (.block (String.ofList c.text)) c.faults
    match c.rest with
    | none => p.stop (.ended "comment terminator")
    | some after => run fuel (offset + 2 + (size rest - size after)) p after
  | fuel + 1, offset, p, c :: rest =>
    if isSpace c then run fuel (offset + 1) p rest
    else if c = '#' then
      let text := rest.takeWhile (· ≠ '\n')
      let after := rest.drop text.length
      run fuel (offset + 1 + size text)
        (p.between (.line (lineText text after)) [.hashComment ⟨offset, offset + 1⟩]) after
    else if isWordStart c then
      let word := c :: rest.takeWhile isWordChar
      let stop := offset + word.length
      run fuel stop (p.push (.word (String.ofList word)) ⟨offset, stop⟩ [])
        (rest.drop (word.length - 1))
    else if Numeral.starts c rest then
      let cs := Numeral.spelling (c :: rest)
      let after := rest.drop (cs.length - 1)
      let span : Span := ⟨offset, offset + cs.length⟩
      match (Numeral.ofSpelling? cs).map numberToken with
      | some t => run fuel span.stop (p.push t span (numberFaults offset cs t after)) after
      | none => p.stop (.token span)
    else if c = '"' ∨ c = '\'' then
      match quotedText c rest.length (offset + 1) rest with
      | .ok (b, after, stop) => run fuel stop (p.push (.text b) ⟨offset, stop⟩ []) after
      | .error f => p.stop f
    else if isMark c then run fuel (offset + 1) (p.push (.mark c) ⟨offset, offset + 1⟩ []) rest
    else p.stop (.token ⟨offset, offset + c.utf8Size⟩)

end Lexer

def Lexed.ofText (source : String) : Lexed := Lexer.run (source.length + 1) 0 {} source.toList

end DescriptorKit.Language
