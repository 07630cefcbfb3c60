import DescriptorKit.Declaration.Basic
import DescriptorKit.Language.Comment
import DescriptorKit.Text.Split

/-!
Reading tokens one after the other. A reader notes where each declaration stands and what was wrong
on the way; some faults let it go on, others end it.
-/
namespace DescriptorKit.Language

/-- Where a declaration stands, with its comments. -/
structure Mark where
  /-- Field numbers and indexes that lead from the file to the declaration. -/
  path : List Int32
  span : Span
  comments : Comments := {}

/-- How far a source has been read. -/
structure Reader where
  source : Bytes
  lexemes : List Lexeme
  /-- What stands behind the last token, and what is wrong there. -/
  trivia : List Trivia
  endFaults : List Fault
  stuck : Bool
  /-- The end of the last token that was taken. -/
  stop : Nat := 0
  /-- The last one first. -/
  faults : List Fault := []
  /-- Faults that count only once the whole source has been read, the last one first. -/
  late : List Fault := []
  /-- The last one first. -/
  marks : List Mark := []
  /-- Comments that belong to the next declaration. -/
  leading : Option String := none
  detached : List String := []
  proto3 : Bool := false

/-- Steps of a reader. What ended it is the last of its faults. -/
abbrev Parser := ExceptT Unit (StateM Reader)

namespace Parser

/-- Notes what is wrong with the text in front of the next token. -/
def noteFaults (r : Reader) : Reader :=
  match r.lexemes with
  | l :: _ => { r with faults := l.faults.reverse ++ r.faults }
  | [] => { r with faults := r.endFaults.reverse ++ r.faults }

/-- What stands in front of the next token, and whether that closes a scope. -/
def ahead (r : Reader) : Bool × List Trivia :=
  match r.lexemes with
  | [] => (true, r.trivia)
  | l :: _ => (l.token = .mark '\x7d' || l.token = .mark ']' || l.token = .mark ')', l.before)

def start (source : String) : Reader :=
  let lexed := Lexed.ofText source
  let r : Reader :=
    { source := Bytes.ofText source, lexemes := lexed.lexemes, trivia := lexed.trivia
      endFaults := lexed.faults, stuck := lexed.stuck }
  let (closes, trivia) := ahead r
  let gap := Gap.first closes trivia
  noteFaults { r with leading := gap.leading, detached := gap.detached }

def note (f : Fault) : Parser Unit := modify fun r => { r with faults := f :: r.faults }

def noteLate (f : Fault) : Parser Unit := modify fun r => { r with late := f :: r.late }

/-- Takes the steps and gives the faults that count only in the end apart, the last one first. -/
def apart {α : Type} (p : Parser α) : Parser (α × List Fault) := do
  let before := (← get).late
  modify fun r => { r with late := [] }
  let a ← p
  let own := (← get).late
  modify fun r => { r with late := before }
  return (a, own)

/-- Notes faults that were kept apart behind those noted so far. -/
def noteApart (own : List Fault) : Parser Unit := modify fun r => { r with late := own ++ r.late }

def fail {α : Type} (f : Fault) : Parser α := do
  note f
  throw ()

/-- Ends because something else should stand here. -/
def unexpected {α : Type} (expected : String) : Parser α := do
  let r ← get
  match r.lexemes with
  | l :: _ => fail (.unexpected expected l.token l.span)
  | [] => if r.stuck then throw () else fail (.ended expected)

/-- The next token. A text that cannot be read ends the reader. -/
def peek? : Parser (Option Token) := do
  let r ← get
  match r.lexemes with
  | l :: _ => return some l.token
  | [] => if r.stuck then throw () else return none

/-- Where the next token starts, or where the source ends. -/
def here : Parser Nat := do
  match (← get).lexemes with
  | l :: _ => return l.span.start
  | [] => return (← get).source.length

/-- Takes the next token. -/
def advance : Parser Unit :=
  modify fun r =>
    match r.lexemes with
    | [] => r
    | l :: rest => noteFaults { r with lexemes := rest, stop := l.span.stop }

/-- The span from a place to the end of the last token. -/
def since (start : Nat) : Parser Span := do return ⟨start, (← get).stop⟩

def mark (path : List Int32) (span : Span) (comments : Comments := {}) : Parser Unit :=
  modify fun r => { r with marks := ⟨path, span, comments⟩ :: r.marks }

def looksAt (t : Token) : Parser Bool := do return (← peek?) = some t

def tryTake (t : Token) : Parser Bool := do
  if ← looksAt t then
    advance
    return true
  else return false

def expectMark (c : Char) : Parser Unit := do
  if ← tryTake (.mark c) then return
  else unexpected ("'" ++ String.singleton c ++ "'")

def expectWord (s : String) : Parser Unit := do
  if ← tryTake (.word s) then return
  else unexpected ("'" ++ s ++ "'")

/-- Takes a token that ends the head of a declaration or all of it, and gives the comments of the
declaration. Those behind the token may belong to it, or to the next one. -/
def endDeclaration (c : Char) : Parser Comments := do
  expectMark c
  let r ← get
  let (closes, trivia) := ahead r
  let gap := Gap.behind closes trivia
  set { r with leading := gap.leading, detached := gap.detached }
  return ⟨r.leading, gap.trailing, r.detached⟩

/-- Opens a scope that keeps the comments inside it to itself. -/
def openScope : Parser Unit := do
  expectMark '\x7b'
  modify fun r =>
    let (closes, trivia) := ahead r
    let gap := Gap.behind closes trivia
    { r with leading := gap.leading, detached := gap.detached }

/-- The comments in front of the next declaration. -/
def commentsAhead : Parser Comments := do
  let r ← get
  return { leading := r.leading, detached := r.detached }

/-- Closes a scope, which has comments of its own already. -/
def closeScope : Parser Unit := do
  let _ ← endDeclaration '\x7d'

/-- Takes a semicolon that ends nothing. The comments in front of it belong to nothing. -/
def emptyStatement : Parser Unit := do
  let _ ← endDeclaration ';'

def identifier : Parser (String × Span) := do
  match (← get).lexemes with
  | ⟨.word s, span, _, _⟩ :: _ =>
    advance
    return (s, span)
  | _ => unexpected "an identifier"

/-- What may follow a dotted name, and how a message calls it. -/
structure Follower where
  text : String
  accepts : Token → Bool

def Follower.mark (c : Char) : Follower := ⟨"'" ++ String.singleton c ++ "'", (· = .mark c)⟩

def Follower.word : Follower :=
  ⟨"an identifier", fun
    | .word _ => true
    | _ => false⟩

/-- Alternatives as a message lists them. -/
def alternatives : List String → String
  | [] => ""
  | [a] => a
  | [a, b] => a ++ " or " ++ b
  | a :: rest => a ++ ", " ++ alternatives rest

/-- Goes on with `step` until it is done. The number of tokens bounds the steps. -/
def iterate {α : Type} (step : α → Parser (Option α)) : (fuel : Nat) → α → Parser α
  | 0, a => return a
  | fuel + 1, a => do
    match ← step a with
    | none => return a
    | some a => iterate step fuel a

/-- Goes on with `step` until it is done. Each step but the last takes a token at least. -/
def repeatedly {α : Type} (step : α → Parser (Option α)) (a : α) : Parser α := do
  iterate step ((← get).lexemes.length + 1) a

/-- A name with dots in it. -/
def dotted (followers : List Follower) : Parser (String × Span) := do
  let (first, span) ← identifier
  let name ← repeatedly (fun name => do
    if ← tryTake (.mark '.') then
      let (part, _) ← identifier
      return some (name ++ "." ++ part)
    else
      match ← peek? with
      | some t =>
        if followers.any (·.accepts t) then return none
        else unexpected (alternatives ("'.'" :: followers.map (·.text)))
      | none => unexpected (alternatives ("'.'" :: followers.map (·.text)))) first
  return (name, ← since span.start)

/-- The name of a type, which a dot in front makes an absolute one. `expected` is how a message
calls it. -/
def typeName (followers : List Follower) (expected : String := "a type name") :
    Parser (String × Span) := do
  let start ← here
  match ← peek? with
  | some (.mark '.') =>
    advance
    let (name, _) ← dotted followers
    return ("." ++ name, ← since start)
  | some (.word _) => dotted followers
  | _ => unexpected expected

/-- A text, which may be written in several parts. `expected` is how a message calls it. -/
def text (expected : String) : Parser (Bytes × Span) := do
  let start ← here
  match ← peek? with
  | some (.text b) =>
    advance
    let b ← repeatedly (fun b => do
      match ← peek? with
      | some (.text more) =>
        advance
        return some (b ++ more)
      | _ => return none) b
    return (b, ← since start)
  | _ => unexpected expected

def integer : Parser (Int × Span) := do
  let start ← here
  let negative ← tryTake (.mark '-')
  match (← get).lexemes with
  | ⟨.int n, _, _, _⟩ :: _ =>
    advance
    return (if negative then -(n : Int) else n, ← since start)
  | _ => unexpected "an integer"

end Parser
end DescriptorKit.Language
