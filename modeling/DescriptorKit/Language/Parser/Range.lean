import DescriptorKit.Language.Parser.Options

/-!
Ranges of numbers, and the numbers and names that enums and messages reserve.
-/
namespace DescriptorKit.Language.Parser

/-- The numbers that declarations of a kind may have, and what is wrong with another one. -/
structure Numbers where
  least : Int
  greatest : Int
  fault : Span → Fault

def Numbers.ofMessage : Numbers := ⟨1, 536870911, .messageNumber⟩

def Numbers.ofEnum : Numbers := ⟨-2147483648, 2147483647, .enumNumber⟩

/-- A number with the place where it stands. -/
abbrev WrittenNumber := Int × Span

/-- A number outside the limits is told in the end. -/
def Numbers.check (ns : Numbers) (n : WrittenNumber) : Parser Unit := do
  if n.1 < ns.least ∨ ns.greatest < n.1 then noteLate (ns.fault n.2)

/-- A range as it is written: both bounds belong to it. -/
structure WrittenRange where
  first : WrittenNumber
  /-- Absent where the range goes up to the greatest number that there is. -/
  last : Option WrittenNumber

namespace WrittenRange

/-- Checks the bounds that are written. -/
def check (ns : Numbers) (r : WrittenRange) : Parser Unit :=
  (r.first :: r.last.toList).eraseDups.forM ns.check

/-- The range of an enum, which includes its end. -/
def ofEnum (r : WrittenRange) : RangeDecl :=
  { start := Int32.ofInt r.first.1, stop := Int32.ofInt ((r.last.map (·.1)).getD 2147483647) }

/-- The range of a message, which leaves its end out. Messages that hold others by their number have
more numbers than fit below an end of that kind. -/
def ofMessage (holdsOthers : Bool) (r : WrittenRange) : RangeDecl :=
  { start := Int32.ofInt r.first.1
    stop := match r.last with
      | some (last, _) => Int32.ofInt (last + 1)
      | none => if holdsOthers then 2147483647 else 536870912 }

end WrittenRange

/-- A range at a path: one number, or two with `to` between them. -/
def range (path : List Int32) : Parser WrittenRange := do
  let first ← integer
  mark (path ++ [1]) first.2
  let finish (last : Option WrittenNumber) (lastSpan : Span) : Parser WrittenRange := do
    mark (path ++ [2]) lastSpan
    mark path (first.2.to lastSpan)
    return ⟨first, last⟩
  match ← peek? with
  | some (.word "to") =>
    advance
    let start ← here
    match ← peek? with
    | some (.word "max") =>
      advance
      finish none (← since start)
    | some (.int _) | some (.mark '-') =>
      let last ← integer
      finish (some last) last.2
    | _ => unexpected "an integer or 'max'"
  | some (.mark ',') | some (.mark ';') => finish (some first) first.2
  | _ => unexpected "'to', ',' or ';'"

/-- Items with commas between them, up to a token that may follow them. `one` reads the item with an
index. -/
def commaSeparated {α : Type} (followers : List Follower) (one : Nat → Parser α) :
    Parser (List α) := do
  let expected := alternatives ((Follower.mark ',' :: followers).map (·.text))
  let first ← one 0
  repeatedly (fun items => do
    match ← peek? with
    | some (.mark ',') =>
      advance
      return some (items ++ [← one items.length])
    | some t => if followers.any (·.accepts t) then return none else unexpected expected
    | none => unexpected expected) [first]

/-- Ranges that are elements of a field of what stands at `path`. `index` is the number of those
before. -/
def ranges (followers : List Follower) (path : List Int32) (field : Int32) (index : Nat) :
    Parser (List WrittenRange) :=
  commaSeparated followers fun i => range (MessageDecl.childPath path field (index + i))

/-- Whether a text can be reserved as a name. It starts with a letter. -/
def isReservable (s : String) : Bool :=
  match s.toList with
  | [] => false
  | c :: rest => c.isAlpha && rest.all Lexer.isWordChar

/-- A name that is written as a text. -/
def quotedName (path : List Int32) : Parser String := do
  let (b, span) ← text "a string literal"
  mark path span
  match Bytes.text? b with
  | none =>
    note (.encoding span)
    return ""
  | some s =>
    if !isReservable s then note (.identifier span)
    return s

def names (path : List Int32) (field : Int32) (index : Nat) : Parser (List String) :=
  commaSeparated [.mark ';'] fun i =>
    quotedName (MessageDecl.childPath path field (index + i))

/-- Ranges and names that a declaration reserves. -/
structure Reserved where
  ranges : List WrittenRange := []
  names : List String := []

def Reserved.check (ns : Numbers) (r : Reserved) : Parser Unit :=
  r.ranges.forM (·.check ns)

/-- A `reserved` statement. The ranges are elements of field `rangeField` of the declaration, the
names of field `nameField`. -/
def reserved (path : List Int32) (rangeField nameField : Int32) (r : Reserved) :
    Parser Reserved := do
  let start ← here
  expectWord "reserved"
  let (r, field) ← match ← peek? with
    | some (.text _) => do
      let ns ← names path nameField r.names.length
      pure ({ r with names := r.names ++ ns }, nameField)
    | some (.int _) | some (.mark '-') => do
      let rs ← ranges [.mark ';'] path rangeField r.ranges.length
      pure ({ r with ranges := r.ranges ++ rs }, rangeField)
    | _ => unexpected "a positive integer or string"
  let comments ← endDeclaration ';'
  mark (path ++ [field]) (← since start) comments
  return r

end DescriptorKit.Language.Parser
