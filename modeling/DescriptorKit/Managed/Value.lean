import DescriptorKit.Managed.Version
import DescriptorKit.Path
import DescriptorKit.Text.Words

/-!
Option values derived from the package and the path of a file. Without a package most of them are
not derived at all.
-/
namespace DescriptorKit.Managed.Value

def components (package : String) : List String := Text.splitAt '.' package

/-- `lead.package.tail`, without the parts that are not there or empty. -/
def javaPackage (package : String) (lead tail : Option String) : Option String :=
  if package = "" then none
  else
    let parts := [lead, some package, tail].filterMap id
    some (Text.joinWith '.' (parts.filter (· ≠ "")))

/-- The name of the file in words, followed by `Proto`. -/
def javaOuterClassname (path : String) : String :=
  let base := Path.base path
  let stem := (Text.stripTail? ".proto".toList base.toList).getD base.toList
  Text.camelCase (String.ofList stem) ++ "Proto"

/-- Characters that the name of a package cannot hold become underscores. -/
def goName (name : String) : String :=
  String.ofList (name.toList.map fun c => if c = '-' ∨ c = '.' then '_' else c)

/-- The import path of a file below `lead`. Where the package ends in a version, a name made of the
last two directories follows. -/
def goPackage (path package lead : String) : String :=
  let location := Path.join lead (Path.dir path)
  let parent := Path.dir location
  if (Version.ofPackage? package).isSome ∧ parent ≠ "" ∧ parent ≠ "." then
    location ++ ";" ++ goName (Path.base parent ++ Path.base location)
  else location

/-- The components of a package that are not empty, without a version at the end. -/
def unversioned (package : String) : List (List Char) :=
  let parts := (Text.pieces '.' package.toList).filter (· ≠ [])
  match parts.getLast? with
  | some last => if Version.isVersion last then parts.dropLast else parts
  | none => parts

/-- Initials in upper case, filled up to three bytes. One combination is taken. -/
def objcClassPrefix (package : String) : Option String :=
  match unversioned package with
  | [] => none
  | parts =>
    let initials := String.ofList ((parts.filterMap List.head?).map Char.toUpper)
    let full := initials ++ String.ofList (List.replicate (3 - initials.utf8ByteSize) 'X')
    some (if full = "GPB" then "GPX" else full)

def csharpNamespace (package : String) (lead : Option String) : Option String :=
  if package = "" then none
  else
    let name := Text.joinWith '.' ((components package).map Text.camelCase)
    match lead with
    | some lead => some (if lead = "" then name else lead ++ "." ++ name)
    | none => some name

/-- Words that cannot name a part of a namespace. -/
def phpKeywords : List String := [
  "abstract", "and", "array", "as", "bool", "break", "callable", "case", "catch", "class", "clone",
  "const", "continue", "declare", "default", "die", "do", "echo", "else", "elseif", "empty",
  "enddeclare", "endfor", "endforeach", "endif", "endswitch", "endwhile", "eval", "exit",
  "extends", "false", "final", "finally", "float", "fn", "for", "foreach", "function", "global",
  "goto", "if", "implements", "include", "include_once", "instanceof", "insteadof", "int",
  "interface", "isset", "iterable", "list", "match", "mixed", "namespace", "never", "new",
  "null", "object", "or", "parent", "print", "private", "protected", "public", "readonly",
  "require", "require_once", "return", "self", "static", "string", "switch", "throw", "trait",
  "true", "try", "unset", "use", "var", "void", "while", "xor", "yield"]

/-- A part of a namespace. A keyword, in whatever case, gets an underscore. -/
def phpName (part : String) : String :=
  let name := Text.camelCase part
  if String.ofList (name.toList.flatMap Text.toLower) ∈ phpKeywords then name ++ "_" else name

def phpNamespace (package : String) : Option String :=
  if package = "" then none
  else some (Text.joinWith '\\' ((components package).map phpName))

def phpMetadataNamespace (package : String) (tail : Option String) : Option String :=
  (phpNamespace package).map fun name =>
    match tail with
    | some tail => if tail = "" then name else name ++ "\\" ++ tail
    | none => name

def rubyPackage (package : String) (tail : Option String) : Option String :=
  if package = "" then none
  else
    let name := String.intercalate "::" ((components package).map Text.camelCase)
    match tail with
    | some tail => some (if tail = "" then name else name ++ "::" ++ tail)
    | none => some name

end DescriptorKit.Managed.Value
