import DescriptorKit.Text.Format.Token

/-!
Messages as text writes them, before any schema says what their fields are. A field has a name, a
colon, and one value or a list of values in brackets; in front of one message the colon may be left
out. One comma or semicolon may follow a field.
-/
namespace DescriptorKit.Text.Format

/-- A value that is no message, with the sign in front of it given apart. -/
inductive Atom where
  | word (negative : Bool) (s : String)
  | number (negative : Bool) (n : Numeral)
  | bytes (b : Bytes)

inductive NodeName where
  | plain (s : String)
  | extension (name : String)
  /-- The address of a message type: the text up to its last slash, and the name of the type. -/
  | address (host type : String)
  deriving DecidableEq, Repr

mutual

inductive Node where
  | atom (a : Atom)
  | message (fields : List NodeField)

inductive NodeField where
  | one (name : NodeName) (value : Node)
  | list (name : NodeName) (values : List Node)

end

namespace Node

/-- A name with dots in it, read up to a mark that follows it. -/
def dotted : List Token → Option (String × Char × List Token)
  | .word s :: .mark '.' :: rest => (dotted rest).map fun (t, r) => (s ++ "." ++ t, r)
  | .word s :: .mark c :: rest => some (s, c, rest)
  | _ => none

/-- The name of a field. -/
def name : List Token → Option (NodeName × List Token)
  | .word s :: rest => some (.plain s, rest)
  | .mark '[' :: rest =>
    match dotted rest with
    | some (s, ']', rest) => some (.extension s, rest)
    | some (host, '/', rest) =>
      match dotted rest with
      | some (type, ']', rest) => some (.address host type, rest)
      | _ => none
    | _ => none
  | _ => none

/-- The bytes of texts that stand next to each other. -/
def joined : List Token → Bytes × List Token
  | .bytes b :: rest =>
    let (more, rest) := joined rest
    (b ++ more, rest)
  | rest => ([], rest)

/-- A value that is no message. -/
def atom? : List Token → Option (Atom × List Token)
  | .mark '-' :: t :: rest => (signed true t).map (·, rest)
  | .bytes b :: rest =>
    let (more, rest) := joined rest
    some (.bytes (b ++ more), rest)
  | t :: rest => (signed false t).map (·, rest)
  | [] => none
where
  signed (negative : Bool) : Token → Option Atom
    | .word s => some (.word negative s)
    | .number n => some (.number negative n)
    | _ => none

/-- The mark that closes a message. -/
def closing? : Token → Option Char
  | .mark '\x7b' => some '\x7d'
  | .mark '<' => some '>'
  | _ => none

/-- What follows a field, without the mark that may stand there. -/
def separated : List Token → List Token
  | .mark ',' :: rest => rest
  | .mark ';' :: rest => rest
  | rest => rest

mutual

/-- Fields up to a closing mark, or up to the end where there is none. -/
def fields : (fuel : Nat) → Option Char → List Token → Option (List NodeField × List Token)
  | 0, _, _ => none
  | _ + 1, none, [] => some ([], [])
  | fuel + 1, close, ts =>
    match ts, close with
    | .mark c :: rest, some d => if c = d then some ([], rest) else more fuel close ts
    | ts, _ => more fuel close ts

/-- At least one field. -/
def more : (fuel : Nat) → Option Char → List Token → Option (List NodeField × List Token)
  | 0, _, _ => none
  | fuel + 1, close, ts =>
    match field fuel ts with
    | some (f, rest) => (fields fuel close (separated rest)).map fun (fs, rest) => (f :: fs, rest)
    | none => none

def field : (fuel : Nat) → List Token → Option (NodeField × List Token)
  | 0, _ => none
  | fuel + 1, ts =>
    match name ts with
    | none => none
    | some (name, .mark ':' :: .mark '[' :: .mark ']' :: rest) => some (.list name [], rest)
    | some (name, .mark ':' :: .mark '[' :: rest) =>
      (items fuel rest).map fun (vs, rest) => (.list name vs, rest)
    | some (name, .mark ':' :: rest) =>
      (item fuel rest).map fun (v, rest) => (.one name v, rest)
    | some (name, rest) =>
      if (rest.head?.bind closing?).isSome then
        (item fuel rest).map fun (v, rest) => (.one name v, rest)
      else none

/-- One value. -/
def item : (fuel : Nat) → List Token → Option (Node × List Token)
  | 0, _ => none
  | fuel + 1, ts =>
    match ts.head?.bind closing? with
    | some close => (fields fuel (some close) ts.tail).map fun (fs, rest) => (.message fs, rest)
    | none => (atom? ts).map fun (a, rest) => (.atom a, rest)

/-- The values of a list, up to its closing bracket. -/
def items : (fuel : Nat) → List Token → Option (List Node × List Token)
  | 0, _ => none
  | fuel + 1, ts =>
    match item fuel ts with
    | some (v, .mark ']' :: rest) => some ([v], rest)
    | some (v, .mark ',' :: rest) => (items fuel rest).map fun (vs, rest) => (v :: vs, rest)
    | _ => none

end

/-- The fields of the message that a text writes. -/
def ofText? (text : String) : Option (List NodeField) :=
  (tokens? text).bind fun ts => (fields (4 * ts.length + 4) none ts).map (·.1)

end Node
end DescriptorKit.Text.Format
