import DescriptorKit.Text.Split

/-!
Package versions such as `v1`, `v1alpha`, `v2beta3`, `v1p1alpha` and `v1test`.
-/
namespace DescriptorKit.Managed.Version

/-- What follows the digits at the front, of which there is one at least. -/
def afterDigits? (cs : List Char) : Option (List Char) :=
  match cs with
  | c :: rest => if c.isDigit then some (rest.dropWhile Char.isDigit) else none
  | [] => none

/-- A stage of development with an optional number. -/
def isStage (cs : List Char) : Bool :=
  match Text.stripLead? "alpha".toList cs with
  | some rest => rest.all Char.isDigit
  | none =>
    match Text.stripLead? "beta".toList cs with
    | some rest => rest.all Char.isDigit
    | none => false

/-- What may follow the number of a version: nothing, a test, or a stage behind an optional
point. -/
def isTail (cs : List Char) : Bool :=
  if cs = [] then true
  else
    match Text.stripLead? "test".toList cs with
    | some rest => rest.all Char.isAlphanum
    | none =>
      match cs with
      | 'p' :: point =>
        match afterDigits? point with
        | some rest => isStage rest
        | none => false
      | _ => isStage cs

def isVersion (cs : List Char) : Bool :=
  match cs with
  | 'v' :: rest =>
    match afterDigits? rest with
    | some tail => isTail tail
    | none => false
  | _ => false

/-- The last component of a package, where it is a version. -/
def ofPackage? (package : String) : Option String :=
  let last := (Text.pieces '.' package.toList).getLastD []
  if isVersion last then some (String.ofList last) else none

end DescriptorKit.Managed.Version
