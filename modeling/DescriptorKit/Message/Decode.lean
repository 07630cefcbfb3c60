import DescriptorKit.Message.Basic

/-!
Reading messages by a schema. A lossless reader keeps records of undeclared fields; a typed reader
drops them, fills in required fields, and says in which fields a failure lies.
-/
namespace DescriptorKit
open Wire

/-- How a reader treats what its schema does not declare. -/
inductive Reading where
  | lossless
  | typed
  deriving DecidableEq

namespace Message

/-- Reads a value of a field into a message: the key is read already. -/
abbrev Step := MessageType → Message → Nat → WireType → Cursor → Except Failure (Message × Cursor)

/-- The greatest depth at which messages nest. -/
def maxDepth : Nat := 100

def lift {α : Type} : Except Fault α → Except Failure α
  | .ok a => .ok a
  | .error f => .error ⟨f, []⟩

def expect (found expected : WireType) : Except Failure Unit :=
  if found = expected then .ok () else .error ⟨.wireType found expected, []⟩

/-- Reads one scalar value of a field. -/
def readScalar (k : Kind) (c : Cursor) : Except Failure (Value × Cursor) :=
  match lift (match k with
    | .scalar k => Scalar.read k c
    | _ => Scalar.readEnum c) with
  | .ok (s, c) => .ok (.scalar s, c)
  | .error f => .error f

/-- Reads the records of a nested message into `m`. Without `step` the nesting is too deep. -/
def readNested (step : Option Step) (t : MessageType) (f : Field) (w : WireType) (m : Message)
    (c : Cursor) : Except Failure (Message × Cursor) := do
  expect w f.kind.wireType
  match step with
  | none => .error ⟨.tooDeep, []⟩
  | some step =>
    if f.kind.wireType = .startGroup then
      c.repeatGroup f.number (step t) (c.size + 1) m
    else
      c.repeatDelimited (fun m c => do
        let (number, w, c) ← lift c.readKey
        step t m number w c) m

/-- Gives required fields that were not read their default. -/
def fillRequired (S : Schema) (t : MessageType) (m : Message) : Message :=
  t.fields.foldl
    (fun m f => if f.required && (m.get? f).isNone then m.set f (S.default f) else m) m

/-- How messages in a field are read: those of a depth of their own by `message`, if the nesting is
not too deep for them, the entries of a map by `entry`. -/
structure Nested where
  message : Option Step
  entry : Option Step

/-- Reads one record of a declared field. -/
def readKnown (S : Schema) (reading : Reading) (nested : Nested) (f : Field) (m : Message)
    (w : WireType) (c : Cursor) : Except Failure (Message × Cursor) :=
  let old := (m.get? f).getD (if f.repeated then .many [] else .message [])
  match f.kind with
  | .message type | .group type => do
    let some t := S.message? type | .error ⟨.tooDeep, []⟩
    let finish := fun inner => if reading = .typed then fillRequired S t inner else inner
    if f.map then
      let (entry, c) ← readNested nested.entry t f w [] c
      .ok (m.add S f (.message entry), c)
    else if f.repeated then
      let (inner, c) ← readNested nested.message t f w [] c
      .ok (m.add S f (.message (finish inner)), c)
    else
      let (inner, c) ← readNested nested.message t f w (old.message?.getD []) c
      .ok (m.set f (.message (finish inner)), c)
  | kind =>
    if f.repeated then
      let earlier := old.many?.getD []
      if w = .delimited && f.packable then do
        let (later, c) ← c.repeatDelimited (fun vs c => do
          let (v, c) ← readScalar kind c
          .ok (v :: vs, c)) []
        .ok (m.set f (.many (earlier ++ later.reverse)), c)
      else do
        expect w kind.wireType
        let (v, c) ← readScalar kind c
        .ok (m.add S f v, c)
    else do
      expect w kind.wireType
      let (v, c) ← readScalar kind c
      .ok (m.set f v, c)

/-- One step of a reader that nests messages `depth` deep at most. -/
def readFieldWith (S : Schema) (reading : Reading) (depth : Nat) (nested : Nested) : Step :=
  fun t m number w c =>
    match S.field? t number with
    | some f =>
      match readKnown S reading nested f m w c with
      | .ok r => .ok r
      | .error failure =>
        .error (if reading = .typed then failure.within t.shortName f.name else failure)
    | none =>
      match Payload.read (reading = .typed || t.mapEntry) depth number w c with
      | .ok (p, c) =>
        .ok (if reading = .typed || t.mapEntry then m else m.insert (.unknown number p), c)
      | .error failure => .error failure

/-- One step of a reader `depth` deep at most. The entries of a map are no level of their own. -/
def readLevel (S : Schema) (reading : Reading) (depth : Nat) (message : Option Step) : Step :=
  readFieldWith S reading depth
    ⟨message, some (readFieldWith S reading depth ⟨message, message⟩)⟩

/-- Reads one field, messages in it nested at most `depth` deep. -/
def readField (S : Schema) (reading : Reading) : (depth : Nat) → Step
  | 0 => readLevel S reading 0 none
  | depth + 1 => readLevel S reading (depth + 1) (some (readField S reading depth))

/-- Reads a whole message of the given type. -/
def decode (S : Schema) (reading : Reading) (t : MessageType) (bytes : Bytes) :
    Except Failure Message := do
  let c := Cursor.ofBytes bytes
  let (m, _) ← c.repeatUntil 0 (fun m c => do
    let (number, w, c) ← lift c.readKey
    readField S reading maxDepth t m number w c) c.size []
  .ok (if reading = .typed then fillRequired S t m else m)

end Message
end DescriptorKit
