import DescriptorKit.Message.Basic

/-!
Writing messages. Slots carry their fields, so no schema is needed.
-/
namespace DescriptorKit
open Wire

namespace Value

/-- The bytes of a value inside a record that packs many. -/
def encodePacked (k : Kind) : List Value → Bytes
  | [] => []
  | .scalar s :: rest =>
    (match k with
      | .scalar k => s.encode k
      | _ => s.encode .int32) ++ encodePacked k rest
  | _ :: rest => encodePacked k rest

mutual

/-- The records of a field that holds the value. -/
def encode (f : Field) : Value → Bytes
  | .scalar s =>
    encodeKey f.number f.kind.wireType ++
      (match f.kind with
        | .scalar k => s.encode k
        | _ => s.encode .int32)
  | .message m =>
    match f.kind with
    | .group _ =>
      encodeKey f.number .startGroup ++ encodeSlots m ++ encodeKey f.number .endGroup
    | _ => encodeKey f.number .delimited ++ encodeDelimited (encodeSlots m)
  | .many vs =>
    if f.packed then
      if vs.isEmpty then []
      else encodeKey f.number .delimited ++ encodeDelimited (encodePacked f.kind vs)
    else encodeEach f vs

/-- One record for each value. -/
def encodeEach (f : Field) : List Value → Bytes
  | [] => []
  | v :: rest => encode f v ++ encodeEach f rest

def encodeSlot : Slot → Bytes
  | .known f v => encode f v
  | .unknown number p => p.encode number

def encodeSlots : List Slot → Bytes
  | [] => []
  | s :: rest => encodeSlot s ++ encodeSlots rest

end
end Value

/-- The canonical encoding of a message. -/
def Message.encode (m : Message) : Bytes := Value.encodeSlots m

end DescriptorKit
