import DescriptorKit.Descriptor
import DescriptorKit.Message.Basic
import DescriptorKit.Text.Format

/-!
Changes to the options of a descriptor and to its source locations. A change works on the message,
whatever its schema is, and the typed message follows. Looking for a field to change creates it, so
a change that is refused in the end may leave an empty message behind.
-/
namespace DescriptorKit

namespace Value

/-- Whether a field takes the value as a single one. -/
def fits (f : Field) : Value → Bool
  | .scalar (.enum _) =>
    match f.kind with
    | .enum _ => true
    | _ => false
  | .scalar s =>
    match f.kind, s with
    | .scalar .double, .double _ => true
    | .scalar .float, .float _ => true
    | .scalar .int32, .int32 _ | .scalar .sint32, .int32 _ | .scalar .sfixed32, .int32 _ => true
    | .scalar .int64, .int64 _ | .scalar .sint64, .int64 _ | .scalar .sfixed64, .int64 _ => true
    | .scalar .uint32, .uint32 _ | .scalar .fixed32, .uint32 _ => true
    | .scalar .uint64, .uint64 _ | .scalar .fixed64, .uint64 _ => true
    | .scalar .bool, .bool _ => true
    | .scalar .string, .string _ => true
    | .scalar .bytes, .bytes _ => true
    | _, _ => false
  | _ => false

end Value

namespace Schema

/-- The type of a field as an error tells it. -/
def typeText (S : Schema) (f : Field) : String :=
  if f.map then
    match S.messageOf? f with
    | some entry =>
      let part (n : Nat) : String := ((entry.fieldNumbered? n).map (·.kind.text)).getD ""
      "map<" ++ part 1 ++ ", " ++ part 2 ++ ">"
    | none => f.kind.text
  else if f.repeated then "repeated " ++ f.kind.text
  else f.kind.text

end Schema

namespace Message

/-- Creates a field that is not there, with its default. -/
def touch (S : Schema) (f : Field) (m : Message) : Message := m.set f (m.get S f)

/-- Sets a field by name to a single scalar. -/
def setNamed (S : Schema) (t : MessageType) (name : String) (s : Scalar) (m : Message) :
    Except SetFault Message :=
  match t.fieldNamed? name with
  | none => .error .missing
  | some f =>
    if (Value.scalar s).fits f then .ok (m.set f (.scalar s))
    else .error (.kind (S.typeText f) (Text.Format.scalarText s))

/-- Sets a field of the options of a message. -/
def setOption (S : Schema) (t : MessageType) (name : String) (s : Scalar) (noOptions : Breach)
    (refused : SetFault → Breach) (m : Message) : Message × Except Breach Unit :=
  match t.fieldNamed? "options" with
  | none => (m, .error noOptions)
  | some f =>
    let m := m.touch S f
    match m.get S f, S.messageOf? f with
    | .message options, some type =>
      match setNamed S type name s options with
      | .ok options => (m.set f (.message options), .ok ())
      | .error fault => (m, .error (refused fault))
    | _, _ => (m, .error noOptions)

/-- Changes the message that a path of field numbers and indexes leads to. -/
def updateAt (S : Schema) (missing : Breach)
    (change : MessageType → Message → Message × Except Breach Unit) :
    List Int32 → MessageType → Message → Message × Except Breach Unit
  | [], t, m => change t m
  | [_], _, m => (m, .error missing)
  | number :: index :: rest, t, m =>
    match if 0 ≤ number.toInt then t.fieldNumbered? number.toInt.toNat else none with
    | none => (m, .error missing)
    | some f =>
      let m := m.touch S f
      match m.get S f, S.messageOf? f with
      | .many vs, some type =>
        match if 0 ≤ index.toInt then vs[index.toInt.toNat]? else none with
        | some (.message inner) =>
          let (inner, result) := updateAt S missing change rest type inner
          (m.set f (.many (vs.set index.toInt.toNat (.message inner))), result)
        | _ => (m, .error missing)
      | _, _ => (m, .error missing)

end Message

namespace Descriptor

/-- Changes the message. Where the typed message cannot follow, it stays as it was. -/
def modify {α : Type} (d : Descriptor) (change : Message → Message × Except Breach α) :
    Descriptor × Except Error α :=
  let (m, result) := change d.message
  match readTyped m.encode with
  | .error failure => ({ d with message := m }, .error (.decode failure))
  | .ok typed => ({ d with message := m, typed }, result.mapError .breach)

/-- The value of a file option, its default when it is not set. -/
def fileOption? (d : Descriptor) (name : String) : Option Value :=
  match d.type.fieldNamed? "options" with
  | none => none
  | some f =>
    match d.message.get d.schema f, d.schema.messageOf? f with
    | .message options, some type =>
      (type.fieldNamed? name).map fun g => Message.get d.schema g options
    | _, _ => none

def setFileOption (d : Descriptor) (name : String) (s : Scalar) : Descriptor × Except Error Unit :=
  d.modify fun m =>
    m.setOption d.schema d.type name s .noFileOptions (.fileOptionRefused name)

/-- Sets how the field declared at a source path represents 64-bit integers. -/
def setJsType (d : Descriptor) (path : List Int32) (code : Int32) :
    Descriptor × Except Error Unit :=
  d.modify fun m =>
    m.updateAt d.schema (.noFieldAt path)
      (fun t m => m.setOption d.schema t "jstype" (.enum code) .noFieldOptions .jsTypeRefused)
      path d.type

/-- The path of a source location. -/
def locationPath (S : Schema) (t : Option MessageType) (v : Value) : List Int32 :=
  match t.bind (·.fieldNamed? "path"), v with
  | some f, .message m =>
    match Message.get S f m with
    | .many vs => vs.filterMap fun
      | .scalar (.int32 n) => some n
      | _ => none
    | _ => []
  | _, _ => []

/-- Drops the source locations with one of the paths from the message, and counts them. -/
def dropLocations (d : Descriptor) (paths : List (List Int32)) (f : Field) (m : Message) :
    Message × Nat :=
  let S := d.schema
  let m := m.touch S f
  match m.get S f, S.messageOf? f with
  | .message info, some infoType =>
    match infoType.fieldNamed? "location" with
    | none => (m, 0)
    | some g =>
      let info := Message.touch S g info
      match Message.get S g info with
      | .many locations =>
        let kept := locations.filter fun l =>
          !paths.contains (locationPath S (S.messageOf? g) l)
        (m.set f (.message (Message.set g (.many kept) info)), locations.length - kept.length)
      | _ => (m.set f (.message info), 0)
  | _, _ => (m, 0)

/-- Drops every source location whose path is one of the given ones, and counts them. -/
def removeLocations (d : Descriptor) (paths : List (List Int32)) :
    Descriptor × Except Error Nat :=
  match d.type.fieldNamed? "source_code_info" with
  | none => (d, .ok 0)
  | some f =>
    if paths = [] ∨ (d.message.get? f).isNone then (d, .ok 0)
    else
      d.modify fun m =>
        let (m, count) := d.dropLocations paths f m
        (m, .ok count)

end Descriptor
end DescriptorKit
