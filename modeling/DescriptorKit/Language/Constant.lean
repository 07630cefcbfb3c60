import DescriptorKit.Declaration.Written
import DescriptorKit.Language.Fault

/-!
Constants in a source: the values of options and the defaults of fields. A default is checked
against the type of its field as far as the source names it, and spelled as descriptors spell it.
-/
namespace DescriptorKit.Language

inductive Constant where
  | word (negative : Bool) (s : String)
  | int (negative : Bool) (n : Nat)
  /-- The bits of the number. -/
  | float (bits : UInt64)
  | text (b : Bytes)
  /-- What stands between braces. -/
  | braces (s : String)

namespace Constant

def sign (negative : Bool) : String := if negative then "-" else ""

def signed (negative : Bool) (n : Nat) : Int := if negative then -(n : Int) else n

/-- The constant as a message about its sort shows it. -/
def shown : Constant → String
  | .word negative s => sign negative ++ s
  | .int negative n => sign negative ++ toString n
  | .float bits => Text.Decimal.pointed bits
  | .text b => String.ofList (b.flatMap Text.Format.byteText)
  | .braces s => s

/-- The constant as the value of an option, which stands at `span`. -/
def written (span : Span) : Constant → Except Fault WrittenValue
  | .word true _ => .error (.negativeWord span)
  | .word false s => .ok (.word s)
  | .int true n =>
    if n ≤ 0x8000000000000000 then .ok (.negative (Int64.ofInt (-(n : Int))))
    else .error (.valueRange "a 64-bit integer" (toString (-(n : Int))) span)
  | .int false n => .ok (.positive n.toUInt64)
  | .float bits => .ok (.double bits)
  | .text b => .ok (.bytes b)
  | .braces s => .ok (.braces s)

/-- A text that has to be UTF-8. -/
def utf8 (span : Span) (b : Bytes) : Except Fault String :=
  match Bytes.text? b with
  | some s => .ok s
  | none => .error (.encoding span)

def string (span : Span) : Constant → Except Fault String
  | .text b => utf8 span b
  | c => .error (.valueSort "a string" c.shown span)

/-- How a message calls the integers of a kind. -/
def integers : ScalarKind → String
  | .int32 | .sint32 | .sfixed32 => "a signed 32-bit integer"
  | .uint32 | .fixed32 => "an unsigned 32-bit integer"
  | .int64 | .sint64 | .sfixed64 => "a signed 64-bit integer"
  | _ => "an unsigned 64-bit integer"

/-- The default of a field with a scalar type. A kind without signs takes none, not even at a
zero. -/
def scalarDefault (k : ScalarKind) (span : Span) (c : Constant) : Except Fault String :=
  match k, c with
  | .double, .float bits | .float, .float bits => .ok (Text.Decimal.ofBits bits)
  | .double, .int negative n | .float, .int negative n =>
    let x := Float.ofNat n
    .ok (Text.Decimal.ofBits (if negative then -x else x).toBits)
  | .double, .word negative s | .float, .word negative s =>
    if s = "inf" then .ok (sign negative ++ s)
    else if s = "nan" then .ok s
    else .error (.valueSort "a floating-point number" c.shown span)
  | .double, _ | .float, _ => .error (.valueSort "a floating-point number" c.shown span)
  | .bool, .word false "true" => .ok "true"
  | .bool, .word false "false" => .ok "false"
  | .bool, _ => .error (.valueSort "either 'true' or 'false'" c.shown span)
  | .string, _ => c.string span
  | .bytes, .text b => .ok (String.ofList (b.flatMap Text.Format.byteText))
  | .bytes, _ => .error (.valueSort "a string" c.shown span)
  | k, .int negative n =>
    let value := signed negative n
    if (k.ofInt? value).isSome ∧ (negative = false ∨ k.isSigned) then .ok (toString value)
    else .error (.valueRange (integers k) (sign negative ++ toString n) span)
  | _, _ => .error (.valueSort "an integer" c.shown span)

/-- The default of a field of a type. Types that are named are not known yet, and get any text. -/
def default (type : Option FieldType) (span : Span) (c : Constant) : Except Fault String :=
  match type, c with
  | some (.scalar k), c => c.scalarDefault k span
  | _, .text b => .ok (Text.Format.quoteBytes b)
  | _, c => .ok c.shown

end Constant
end DescriptorKit.Language
