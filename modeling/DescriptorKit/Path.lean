import DescriptorKit.Text.Split

/-!
Relative paths in normal form: slash-separated, without empty or `.` components, never above their
root. The root itself is written `.`.
-/
namespace DescriptorKit.Path

/-- Why a path has no normal form. -/
inductive Fault where
  | empty
  | backslash
  | absolute
  | escapes
  /-- A descriptor may only be named by a path in normal form. -/
  | nameNotNormal
  /-- A rule may only select by a path in normal form. -/
  | selectorNotNormal
  /-- The root is a directory, so it cannot hold a source text. -/
  | namesNoFile
  deriving DecidableEq, Repr

def Fault.reason : Fault → String
  | .empty => "path is empty"
  | .backslash => "path must use forward slashes"
  | .absolute => "path must be relative"
  | .escapes => "path escapes its root"
  | .nameNotNormal => "descriptor name is not normalized"
  | .selectorNotNormal => "rule path is not normalized"
  | .namesNoFile => "path names no file"

/-- The directory components left after reading one more; `none` above the root. The deepest
component comes first. -/
def step (stack : List (List Char)) (component : List Char) : Option (List (List Char)) :=
  if component = [] ∨ component = ['.'] then some stack
  else if component = ['.', '.'] then
    match stack with
    | [] => none
    | _ :: rest => some rest
  else some (component :: stack)

/-- Reads components from left to right, starting from `stack`. -/
def resolve : List (List Char) → List (List Char) → Option (List (List Char))
  | stack, [] => some stack
  | stack, c :: cs => (step stack c).bind (resolve · cs)

/-- A path from its components; no component at all is the root. -/
def ofComponents : List (List Char) → List Char
  | [] => ['.']
  | cs => Text.glue '/' cs

/-- The components of a path in normal form. -/
def components (path : String) : List (List Char) :=
  if path.toList = ['.'] then [] else Text.pieces '/' path.toList

def normalize (path : String) : Except Fault String :=
  let chars := path.toList
  if chars = [] then .error .empty
  else if '\\' ∈ chars then .error .backslash
  else if chars.head? = some '/' then .error .absolute
  else
    match resolve [] (Text.pieces '/' chars) with
    | none => .error .escapes
    | some stack => .ok (String.ofList (ofComponents stack.reverse))

/-- Everything before the last slash, `.` when there is none. -/
def dir (path : String) : String :=
  match (Text.pieces '/' path.toList).dropLast with
  | [] => "."
  | ps => String.ofList (Text.glue '/' ps)

/-- Everything after the last slash. -/
def base (path : String) : String :=
  String.ofList ((Text.pieces '/' path.toList).getLastD [])

/-- Both the empty text and `.` stand for the root. -/
def isRoot (path : String) : Bool :=
  path.toList = [] || path.toList = ['.']

def trimSlashes (path : String) : String :=
  String.ofList (path.toList.reverse.dropWhile (· = '/')).reverse

/-- `right` below `left`, with the root as the unit on both sides. -/
def join (left right : String) : String :=
  if isRoot left then
    if isRoot right then "." else right
  else if isRoot right then trimSlashes left
  else String.ofList ((trimSlashes left).toList ++ '/' :: right.toList)

/-- Whether `path` is `parent` or lies below it. Everything lies below the root. -/
def contains (parent path : String) : Bool :=
  parent = "." || parent = path || (parent.toList ++ ['/']).isPrefixOf path.toList

end DescriptorKit.Path
