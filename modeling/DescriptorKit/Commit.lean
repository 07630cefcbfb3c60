/-!
Commit identities: 128 bits, written as 32 lower-case hexadecimal digits. Four spellings are read,
and a refused one is told apart by where it goes wrong.
-/
namespace DescriptorKit

structure Commit where
  /-- The hexadecimal digits, the most significant one first. -/
  digits : List (Fin 16)
  length_digits : digits.length = 32
  deriving DecidableEq

namespace Commit

/-- Why a text does not spell a commit. -/
inductive Fault where
  | character (c : Char) (position : Nat)
  | length (found : Nat)
  | groupCount (found : Nat)
  | groupLength (group expected found : Nat)
  deriving DecidableEq, Repr

def Fault.text : Fault → String
  | .character c position =>
    "invalid character: found \x60" ++ String.singleton c ++ "\x60 at " ++ toString position
  | .length found => "invalid length: found " ++ toString found
  | .groupCount found => "invalid group count: expected 5, found " ++ toString found
  | .groupLength group expected found =>
    "invalid group length in group " ++ toString group ++ ": expected " ++ toString expected
      ++ ", found " ++ toString found

def digitChar (d : Fin 16) : Char :=
  if d.val < 10 then Char.ofNat (48 + d.val) else Char.ofNat (87 + d.val)

def digit? (c : Char) : Option (Fin 16) :=
  let n := c.toNat
  if 48 ≤ n ∧ n ≤ 57 then some (Fin.ofNat 16 (n - 48))
  else if 97 ≤ n ∧ n ≤ 102 then some (Fin.ofNat 16 (n - 87))
  else if 65 ≤ n ∧ n ≤ 70 then some (Fin.ofNat 16 (n - 55))
  else none

theorem digit?_digitChar (d : Fin 16) : digit? (digitChar d) = some d := by
  revert d; decide

def ofDigits? (ds : List (Fin 16)) : Option Commit :=
  if h : ds.length = 32 then some ⟨ds, h⟩ else none

/-- 32 digits without any mark. -/
def ofPlain? (cs : List Char) : Option Commit := (cs.mapM digit?).bind ofDigits?

/-- Groups of 8, 4, 4, 4 and 12 digits, with a hyphen between each two. -/
def ofGrouped? (cs : List Char) : Option Commit :=
  let group (start width : Nat) := (cs.drop start).take width
  if cs.length = 36 ∧ [8, 13, 18, 23].all (cs[·]? = some '-') then
    ofPlain? (group 0 8 ++ group 9 4 ++ group 14 4 ++ group 19 4 ++ group 24 12)
  else none

/-- What stands between braces, if the text stands between braces. -/
def unbraced? (cs : List Char) : Option (List Char) :=
  match cs with
  | '\x7b' :: rest => if rest.getLast? = some '\x7d' then some rest.dropLast else none
  | _ => none

/-- What follows `urn:uuid:`, whose letters may be of either case. -/
def unlabelled? (cs : List Char) : Option (List Char) :=
  if (cs.take 9).map Char.toLower = "urn:uuid:".toList then some (cs.drop 9) else none

/-- What a text is taken to mean before it is looked at closely. -/
inductive Shape where
  /-- Digits without any mark. -/
  | plain
  /-- Groups with hyphens between them. -/
  | grouped
  deriving DecidableEq, Repr

/-- The bytes of the longest spelling, the one after `urn:uuid:`. -/
def maxBytes : Nat := 45

/-- The body of a text, its shape, and the byte that its positions count from. Where length and
marks are those of a spelling, positions count from its body. In any other text, what stands
between braces or after `urn:uuid:` is the body and is in groups, and positions count from the start
of the text. -/
def body (bytes : Nat) (cs : List Char) : List Char × Shape × Nat :=
  if bytes = 36 then (cs, .grouped, 0)
  else if bytes = 32 then (cs, .plain, 0)
  else
    match unbraced? cs with
    | some inner => (inner, .grouped, if bytes = 38 then 0 else 1)
    | none =>
      match unlabelled? cs with
      | some inner => (inner, .grouped, if bytes = maxBytes then 0 else 9)
      | none => (cs, .plain, 0)

/-- The first character that no spelling holds, with its byte position. -/
def strayCharacter? : Nat → List Char → Option (Char × Nat)
  | _, [] => none
  | position, c :: rest =>
    if c = '-' ∨ (digit? c).isSome then strayCharacter? (position + c.utf8Size) rest
    else some (c, position)

/-- The positions of the hyphens. -/
def hyphens : Nat → List Char → List Nat
  | _, [] => []
  | position, c :: rest =>
    if c = '-' then position :: hyphens (position + 1) rest else hyphens (position + 1) rest

/-- The first group that ends elsewhere than it should; each is given with its start and length. -/
def strayGroup? : Nat → List (Nat × Nat) → List Nat → Option Fault
  | group, (start, width) :: groups, stop :: stops =>
    if stop = start + width then strayGroup? (group + 1) groups stops
    else some (.groupLength group width (stop - start))
  | _, _, _ => none

/-- What is wrong with a text that is no spelling of a commit. The last group is measured to the
end of the whole text. -/
def explain (cs : List Char) : Fault :=
  let bytes := (cs.map Char.utf8Size).foldl (· + ·) 0
  if maxBytes < bytes then .length bytes
  else
    let (inner, shape, offset) := body bytes cs
    match strayCharacter? offset inner with
    | some (c, position) => .character c position
    | none =>
      let marks := hyphens 0 inner
      if marks = [] ∧ shape = .plain then .length bytes
      else if marks.length ≠ 4 then .groupCount (marks.length + 1)
      else
        match strayGroup? 0 [(0, 8), (9, 4), (14, 4), (19, 4)] marks with
        | some fault => fault
        | none => .groupLength 4 12 (bytes - 24)

/-- The shapes a commit is spelled in: plain, grouped, grouped in braces, grouped after
`urn:uuid:`. The length of the whole text decides between them. -/
def ofChars? (cs : List Char) : Option Commit :=
  match cs.length with
  | 32 => ofPlain? cs
  | 36 => ofGrouped? cs
  | 38 => (unbraced? cs).bind ofGrouped?
  | 45 => (unlabelled? cs).bind ofGrouped?
  | _ => none

def parse (s : String) : Except Fault Commit :=
  match ofChars? s.toList with
  | some c => .ok c
  | none => .error (explain s.toList)

/-- The 32 digits without any mark. -/
def text (c : Commit) : String := String.ofList (c.digits.map digitChar)

/-- The digits in groups of 8, 4, 4, 4 and 12. -/
def groupedText (c : Commit) : String :=
  let cs := c.digits.map digitChar
  let group (start width : Nat) := String.ofList ((cs.drop start).take width)
  String.intercalate "-" [group 0 8, group 8 4, group 12 4, group 16 4, group 20 12]

end Commit
end DescriptorKit
