/-!
Walks along successors.
-/
namespace DescriptorKit

/-- What can be reached from a stack of names, those `seen` already included, the last one found
first. Each step takes a name from the stack; `fuel` bounds the steps. -/
def reachFrom (next : String → List String) : (fuel : Nat) → List String → List String → List String
  | 0, seen, _ => seen
  | _ + 1, seen, [] => seen
  | fuel + 1, seen, name :: stack =>
    if name ∈ seen then reachFrom next fuel seen stack
    else reachFrom next fuel (name :: seen) (next name ++ stack)

/-- What can be reached from `start`, where only those of `names` have successors. A name puts its
successors on the stack once, so their number bounds the steps. -/
def reachable (next : String → List String) (names start : List String) : List String :=
  reachFrom next (start ++ names.flatMap next).length [] start

end DescriptorKit
