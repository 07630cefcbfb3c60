/-!
Diagnostics attached to positions in files, and sets of them: sorted, without repetition.
-/
namespace DescriptorKit

/-- Lines and columns count from one; zero means that the position is not known. -/
structure Annotation where
  path : String
  line : Nat
  column : Nat
  message : String
  deriving DecidableEq, Repr

namespace Annotation

def text (a : Annotation) : String :=
  if a.line = 0 then a.path ++ ": " ++ a.message
  else if a.column = 0 then a.path ++ ":" ++ toString a.line ++ ": " ++ a.message
  else a.path ++ ":" ++ toString a.line ++ ":" ++ toString a.column ++ ": " ++ a.message

/-- By path, then by position, then by message. -/
def le (a b : Annotation) : Bool :=
  if a.path ≠ b.path then a.path < b.path
  else if a.line ≠ b.line then a.line < b.line
  else if a.column ≠ b.column then a.column < b.column
  else a.message < b.message || a.message = b.message

end Annotation

/-- Drops every element that equals the one before it. -/
def dropRepeats {α : Type} [DecidableEq α] : List α → List α
  | [] => []
  | [a] => [a]
  | a :: b :: rest => if a = b then dropRepeats (b :: rest) else a :: dropRepeats (b :: rest)

structure AnnotationSet where
  items : List Annotation
  deriving DecidableEq, Repr

namespace AnnotationSet

def ofList (items : List Annotation) : AnnotationSet :=
  ⟨dropRepeats (items.mergeSort Annotation.le)⟩

def text (s : AnnotationSet) : String :=
  String.intercalate "\n" (s.items.map Annotation.text)

end AnnotationSet
end DescriptorKit
