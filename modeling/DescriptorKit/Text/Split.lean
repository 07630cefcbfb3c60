/-!
Splitting text at a mark, and gluing the pieces together again. The two are inverse to each other.
-/
namespace DescriptorKit.Text

/-- The pieces of a text between the occurrences of `mark`. There is always at least one. -/
def pieces (mark : Char) : List Char → List (List Char)
  | [] => [[]]
  | c :: rest =>
    if c = mark then [] :: pieces mark rest
    else
      match pieces mark rest with
      | [] => [[c]]
      | p :: ps => (c :: p) :: ps

/-- The pieces with `mark` between each two of them. -/
def glue (mark : Char) : List (List Char) → List Char
  | [] => []
  | [p] => p
  | p :: ps => p ++ mark :: glue mark ps

theorem pieces_ne_nil (mark : Char) (s : List Char) : pieces mark s ≠ [] := by
  cases s with
  | nil => simp [pieces]
  | cons c r => by_cases h : c = mark <;> simp [pieces, h]; split <;> simp

theorem glue_cons {mark : Char} {p : List Char} {ps : List (List Char)} (h : ps ≠ []) :
    glue mark (p :: ps) = p ++ mark :: glue mark ps := by
  cases ps with
  | nil => exact absurd rfl h
  | cons q qs => rfl

theorem glue_pieces (mark : Char) (s : List Char) : glue mark (pieces mark s) = s := by
  induction s with
  | nil => rfl
  | cons c r ih =>
    by_cases h : c = mark
    · subst h; simp [pieces, glue_cons (pieces_ne_nil c r), ih]
    · rw [pieces, if_neg h]
      cases hp : pieces mark r with
      | nil => exact absurd hp (pieces_ne_nil mark r)
      | cons p ps =>
        rw [hp] at ih
        cases ps with
        | nil => simpa [glue] using ih
        | cons q qs => simpa [glue] using ih

/-- The pieces of `s` between the occurrences of `mark`. -/
def splitAt (mark : Char) (s : String) : List String :=
  (pieces mark s.toList).map String.ofList

/-- The texts with `mark` between each two of them. -/
def joinWith (mark : Char) (parts : List String) : String :=
  String.ofList (glue mark (parts.map String.toList))

/-- What is left of `s` once `lead` is taken off its front, if it starts so. -/
def stripLead? : List Char → List Char → Option (List Char)
  | [], s => some s
  | _ :: _, [] => none
  | c :: lead, d :: s => if c = d then stripLead? lead s else none

theorem stripLead?_eq_some_iff {lead s rest : List Char} :
    stripLead? lead s = some rest ↔ s = lead ++ rest := by
  induction lead generalizing s with
  | nil => simp [stripLead?, eq_comm]
  | cons c lead ih =>
    cases s with
    | nil => simp [stripLead?]
    | cons d s =>
      by_cases h : c = d
      · simp [stripLead?, h, ih]
      · simp [stripLead?, h]; intro h'; exact absurd h'.symm h

/-- What is left of `s` once `tail` is taken off its end, if it ends so. -/
def stripTail? (tail s : List Char) : Option (List Char) :=
  (stripLead? tail.reverse s.reverse).map List.reverse

end DescriptorKit.Text
