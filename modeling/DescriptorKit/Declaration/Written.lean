import DescriptorKit.Declaration.ToMessage
import DescriptorKit.Message.Basic
import DescriptorKit.Text.Decimal
import DescriptorKit.Text.Format

/-!
Options as written in a source. Their names and values stand unread in a field of their own until
the extensions they name can be looked up.
-/
namespace DescriptorKit

/-- A part of the name of an option. -/
structure NamePart where
  name : String
  isExtension : Bool

/-- Parts with dots between them; those of extensions stand in parentheses. -/
def NamePart.text (parts : List NamePart) : String :=
  String.intercalate "."
    (parts.map fun p => if p.isExtension then "(" ++ p.name ++ ")" else p.name)

/-- The value of an option as it was written. -/
inductive WrittenValue where
  | word (s : String)
  | positive (n : UInt64)
  | negative (n : Int64)
  | double (bits : UInt64)
  | bytes (b : Bytes)
  | braces (s : String)

structure WrittenOption where
  name : List NamePart
  /-- One value where the option stands in a source. A descriptor may hold one of each sort, or
  none. -/
  values : List WrittenValue

namespace WrittenOption

/-- The number under which options hold what is still unread. -/
def number : Nat := 999

def valuesOf (m : Message) : List WrittenValue :=
  ((m.textAt? 3).map WrittenValue.word).toList ++
    (match m.scalarAt? 4 with
      | some (.uint64 n) => [.positive n]
      | _ => []) ++
    (match m.scalarAt? 5 with
      | some (.int64 n) => [.negative n]
      | _ => []) ++
    (match m.scalarAt? 6 with
      | some (.double bits) => [.double bits]
      | _ => []) ++
    (match m.scalarAt? 7 with
      | some (.bytes b) => [.bytes b]
      | _ => []) ++
    ((m.textAt? 8).map WrittenValue.braces).toList

def ofMessage (m : Message) : WrittenOption :=
  { name := (m.messagesAt 2).map fun p =>
      ⟨(p.textAt? 1).getD "", (p.boolAt? 2).getD false⟩
    values := valuesOf m }

def partMessage (p : NamePart) : Message :=
  ((Draft.of "UninterpretedOption.NamePart").text 1 p.name |>.flag? 2 (some p.isExtension)).slots

def toMessage (o : WrittenOption) : Message :=
  let draft := (Draft.of "UninterpretedOption").messages 2 (o.name.map partMessage)
  (o.values.foldl
    (fun draft v =>
      match v with
      | .word s => draft.text 3 s
      | .positive n => draft.put 4 (.scalar (.uint64 n))
      | .negative n => draft.put 5 (.scalar (.int64 n))
      | .double bits => draft.put 6 (.scalar (.double bits))
      | .bytes b => draft.put 7 (.scalar (.bytes b))
      | .braces s => draft.text 8 s) draft).slots

/-- Options of the message type with the given short name that hold the written ones. -/
def holder (type : String) (os : List WrittenOption) : Message :=
  ((Draft.of type).messages number (os.map toMessage)).slots

def nameText (o : WrittenOption) : String := NamePart.text o.name

def word? (o : WrittenOption) : Option String :=
  o.values.findSome? fun
    | .word s => some s
    | _ => none

def bytes? (o : WrittenOption) : Option Bytes :=
  o.values.findSome? fun
    | .bytes b => some b
    | _ => none

def braces? (o : WrittenOption) : Option String :=
  o.values.findSome? fun
    | .braces s => some s
    | _ => none

def int? (o : WrittenOption) : Option Int :=
  o.values.findSome? fun
    | .positive n => some n.toNat
    | .negative n => some n.toInt
    | _ => none

/-- The bits of a number. An integer counts where no other number is given. -/
def double? (o : WrittenOption) : Option UInt64 :=
  (o.values.findSome? fun
    | .double bits => some bits
    | _ => none) <|>
  o.values.findSome? fun
    | .positive n => some n.toFloat.toBits
    | .negative n => some n.toFloat.toBits
    | _ => none

/-- The first value as a message shows it. -/
def valueText (o : WrittenOption) : String :=
  match o.values with
  | .word s :: _ => s
  | .positive n :: _ => toString n.toNat
  | .negative n :: _ => toString n.toInt
  | .double bits :: _ => Text.Decimal.ofBits bits
  | .bytes b :: _ => Text.Format.quoteBytes b
  | .braces s :: _ => s
  | [] => ""

end WrittenOption
end DescriptorKit
