import DescriptorKit.Schema.Basic

/-!
Messages as lists of slots. The slots stand in the order in which they are written: first the
declared fields by number, then extensions and undeclared records together by number, where the
records of one number keep their order. A field that cannot tell being unset from holding its zero
has no slot while it holds its zero. Values are added to fields one by one, and the entries of a map
have a key each. Readers that know the type of a message read its declared fields by number.
-/
namespace DescriptorKit

mutual

inductive Value where
  | scalar (s : Scalar)
  | message (slots : List Slot)
  /-- The values of a repeated field. A map is the list of its entries. -/
  | many (values : List Value)

/-- A field with its value, or a record that belongs to no declared field. -/
inductive Slot where
  | known (field : Field) (value : Value)
  | unknown (number : Nat) (payload : Wire.Payload)

end

abbrev Message := List Slot

namespace Value

def message? : Value → Option Message
  | .message m => some m
  | _ => none

def many? : Value → Option (List Value)
  | .many vs => some vs
  | _ => none

def scalar? : Value → Option Scalar
  | .scalar s => some s
  | _ => none

/-- Whether a field without presence that holds the value is not written. -/
def isZero : Value → Bool
  | .scalar s => s.isZero
  | .message _ => false
  | .many vs => vs.isEmpty

end Value

namespace Slot

def number : Slot → Nat
  | .known f _ => f.number
  | .unknown n _ => n

/-- Whether the slot stands among the declared fields. -/
def declared : Slot → Bool
  | .known f _ => !f.isExtension
  | .unknown _ _ => false

/-- Whether `a` stands strictly before `b`. -/
def before (a b : Slot) : Bool :=
  match a.declared, b.declared with
  | true, false => true
  | false, true => false
  | _, _ => a.number < b.number

/-- Whether the slot holds the value of field `f`. -/
def holds (f : Field) : Slot → Bool
  | .known g _ => g.number = f.number && g.isExtension = f.isExtension
  | .unknown _ _ => false

/-- Whether the slot holds another member of the oneof of `f`. -/
def rivals (f : Field) : Slot → Bool
  | .known g _ => g.oneof.isSome && g.oneof = f.oneof && g.number ≠ f.number
      && !g.isExtension && !f.isExtension
  | .unknown _ _ => false

end Slot

namespace Message

/-- The value of a field that is set. -/
def get? (f : Field) : Message → Option Value
  | [] => none
  | .known g v :: rest => if Slot.holds f (.known g v) then some v else get? f rest
  | .unknown _ _ :: rest => get? f rest

/-- Puts a slot behind all slots that do not stand after it. -/
def insert (s : Slot) : Message → Message
  | [] => [s]
  | t :: rest => if s.before t then s :: t :: rest else t :: insert s rest

def erase (f : Field) (m : Message) : Message := m.filter fun s => !s.holds f

/-- Replaces the value of a field that has a slot, and leaves all other slots alone. -/
def replace (f : Field) (v : Value) : Message → Message
  | [] => []
  | .known g w :: rest =>
    if Slot.holds f (.known g w) then .known f v :: rest else .known g w :: replace f v rest
  | .unknown n p :: rest => .unknown n p :: replace f v rest

/-- Sets a field. The other members of its oneof are unset, and a zero is not kept where the field
does not tell it from being unset. -/
def set (f : Field) (v : Value) (m : Message) : Message :=
  let m : Message := m.filter fun s => !s.rivals f
  if !f.presence && v.isZero then m.erase f
  else if (m.get? f).isSome then m.replace f v
  else m.insert (.known f v)

end Message

namespace Schema

/-- What reading a field gives while it is unset. -/
def default (S : Schema) (f : Field) : Value :=
  if f.repeated then .many []
  else
    match S.scalarDefault? f with
    | some s => .scalar s
    | none => .message []

end Schema

/-- The value of a field, its default when it is unset. -/
def Message.get (S : Schema) (f : Field) (m : Message) : Value :=
  (m.get? f).getD (S.default f)

namespace Message

/-- The values of a repeated field. -/
def valuesOf (f : Field) (m : Message) : List Value := ((m.get? f).bind Value.many?).getD []

/-- The two fields of a map entry, in order. What else an entry holds is dropped. -/
def entrySlots (S : Schema) (t : MessageType) (m : Message) : Message :=
  t.fields.foldl (fun entry f => entry.set f (m.get S f)) []

/-- Whether two map entries have the same key. -/
def sameKey (t : MessageType) (a b : Value) : Bool :=
  match t.fieldNumbered? 1, a, b with
  | some key, .message a, .message b =>
    match Message.get? key a, Message.get? key b with
    | some (.scalar x), some (.scalar y) => x = y
    | none, none => true
    | _, _ => false
  | _, _, _ => false

/-- Adds a value to a field: behind the others of a repeated one. An entry of a map takes the place
of that with its key. -/
def add (S : Schema) (f : Field) (v : Value) (m : Message) : Message :=
  match f.map, S.messageOf? f, v with
  | true, some t, .message entry =>
    let entry := Value.message (entrySlots S t entry)
    m.set f (.many ((m.valuesOf f).filter (fun e => !sameKey t e entry) ++ [entry]))
  | _, _, v => if f.repeated then m.set f (.many (m.valuesOf f ++ [v])) else m.set f v

/-- The value of the declared field `number`. -/
def at? (number : Nat) : Message → Option Value
  | [] => none
  | .known f v :: rest =>
    if f.number = number && !f.isExtension then some v else at? number rest
  | .unknown _ _ :: rest => at? number rest

def scalarAt? (number : Nat) (m : Message) : Option Scalar := (m.at? number).bind Value.scalar?

def textAt? (number : Nat) (m : Message) : Option String :=
  match m.scalarAt? number with
  | some (.string s) => some s
  | _ => none

/-- A 32-bit number, or the number of an enum. -/
def intAt? (number : Nat) (m : Message) : Option Int32 :=
  match m.scalarAt? number with
  | some (.int32 n) => some n
  | some (.enum n) => some n
  | _ => none

def boolAt? (number : Nat) (m : Message) : Option Bool :=
  match m.scalarAt? number with
  | some (.bool b) => some b
  | _ => none

def messageAt? (number : Nat) (m : Message) : Option Message :=
  (m.at? number).bind Value.message?

def manyAt (number : Nat) (m : Message) : List Value :=
  ((m.at? number).bind Value.many?).getD []

def textsAt (number : Nat) (m : Message) : List String :=
  (m.manyAt number).filterMap fun
    | .scalar (.string s) => some s
    | _ => none

def intsAt (number : Nat) (m : Message) : List Int32 :=
  (m.manyAt number).filterMap fun
    | .scalar (.int32 n) => some n
    | _ => none

def bytesAt (number : Nat) (m : Message) : List Bytes :=
  (m.manyAt number).filterMap fun
    | .scalar (.bytes b) => some b
    | _ => none

def messagesAt (number : Nat) (m : Message) : List Message :=
  (m.manyAt number).filterMap Value.message?

end Message
end DescriptorKit
