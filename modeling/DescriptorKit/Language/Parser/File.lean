import DescriptorKit.Language.Parser.Message
import DescriptorKit.Language.Parser.Service
import DescriptorKit.Path
import DescriptorKit.Text.Lossy

/-!
Whole source files.
-/
namespace DescriptorKit.Language

namespace Parser

/-- A file that is being read. -/
structure FileBody where
  decl : FileDecl
  options : List Assignment := []
  /-- Where the package is named. -/
  packageSpan : Option Span := none

/-- The version of the language, where the file states it. -/
def dialect : Parser (Option String) := do
  if ← looksAt (.word "syntax") then
    let start ← here
    advance
    expectMark '='
    let (b, span) ← text "a string"
    let name := Text.lossy b
    if name ≠ "proto2" ∧ name ≠ "proto3" then fail (.dialect name span)
    let comments ← endDeclaration ';'
    mark [12] (← since start) comments
    modify fun r => { r with proto3 := name = "proto3" }
    return some name
  else return none

def package (b : FileBody) : Parser FileBody := do
  let start ← here
  expectWord "package"
  let (name, _) ← dotted [.mark ';']
  let comments ← endDeclaration ';'
  let span ← since start
  match b.packageSpan with
  | some first =>
    note (.packageTwice first span)
    return b
  | none =>
    mark [2] span comments
    return { b with decl := { b.decl with package := some name }, packageSpan := some span }

/-- An import, with the list that its kind puts it on. Its kind is marked at the number of public
imports so far, for weak imports as well. -/
def importStatement (b : FileBody) : Parser FileBody := do
  let start ← here
  let index := b.decl.dependencies.length
  expectWord "import"
  let kindStart ← here
  let d ← match ← peek? with
    | some (.word "public") => do
      advance
      mark (MessageDecl.childPath [] 10 b.decl.publicDependencies.length) (← since kindStart)
      pure { b.decl with
        publicDependencies := b.decl.publicDependencies ++ [Int32.ofNat index] }
    | some (.word "weak") => do
      advance
      mark (MessageDecl.childPath [] 11 b.decl.publicDependencies.length) (← since kindStart)
      pure { b.decl with weakDependencies := b.decl.weakDependencies ++ [Int32.ofNat index] }
    | some (.text _) => pure b.decl
    | _ => unexpected "a string literal, 'public' or 'weak'"
  let (bytes, span) ← text "a string literal"
  let path := Text.lossy bytes
  if (Bytes.text? bytes).isNone then note (.encoding span)
  else if path = "." || (Path.normalize path).toOption ≠ some path then note (.form span)
  let comments ← endDeclaration ';'
  mark (MessageDecl.childPath [] 3 index) (← since start) comments
  return { b with decl := { d with dependencies := d.dependencies ++ [path] } }

/-- One statement of a file, unless it ends here. `body` reads messages. -/
def fileStatement (body : BodyReader) (b : FileBody) : Parser (Option FileBody) := do
  let d := b.decl
  match ← peek? with
  | none => return none
  | some (.mark ';') =>
    emptyStatement
    return some b
  | some (.word "package") => return some (← package b)
  | some (.word "import") => return some (← importStatement b)
  | some (.word "option") =>
    let o ← optionStatement [8] b.options.length
    return some { b with options := b.options ++ [o] }
  | some (.word "message") =>
    let m ← message body (MessageDecl.childPath [] 4 d.messages.length)
    return some { b with decl := { d with messages := d.messages ++ [m] } }
  | some (.word "enum") =>
    let e ← enum (MessageDecl.childPath [] 5 d.enums.length)
    return some { b with decl := { d with enums := d.enums ++ [e] } }
  | some (.word "service") =>
    let s ← service (MessageDecl.childPath [] 6 d.services.length)
    return some { b with decl := { d with services := d.services ++ [s] } }
  | some (.word "extend") =>
    let ps ← extend body [] 7 4 d.extensions.length d.messages.length
    return some
      { b with
        decl :=
          { d with
            extensions := d.extensions ++ ps.map (·.field)
            messages := d.messages ++ ps.filterMap (·.nested) } }
  | _ => unexpected "'enum', 'extend', 'import', 'message', 'option', 'service', 'package' or ';'"

def file (name : String) : Parser FileDecl := do
  let depth := (← get).lexemes.length + 1
  let start ← here
  let dialect ← dialect
  let b ← repeatedly (fileStatement (messageBody depth)) { decl := { name } }
  mark [] (← since start)
  return {
    b.decl with
    options := ← held "FileOptions" b.options
    dialect := dialect.filter (· = "proto3") }

end Parser

/-- A source that has been read: what it declares, and where. -/
structure SourceUnit where
  source : Bytes
  file : FileDecl
  marks : List Mark

/-- Marks by path; those of one path keep their order. -/
def sortMarks (ms : List Mark) : List Mark := ms.mergeSort fun a b => !decide (b.path < a.path)

namespace SourceUnit

/-- Reads a source. What is wrong with it is given in the order in which it was found, the faults of
the whole behind all others. -/
def parse (name source : String) : Except (List Fault) SourceUnit :=
  let (result, r) := (Parser.file name).run.run (Parser.start source)
  match result, r.faults, r.late with
  | .ok file, [], [] => .ok ⟨r.source, file, sortMarks r.marks.reverse⟩
  | .ok _, faults, late => .error (faults.reverse ++ late.reverse)
  | .error (), faults, _ => .error faults.reverse

/-- Where a mark stands: first line and column, last line where it differs, last column. -/
def spanNumbers (source : Bytes) (s : Span) : List Int32 :=
  let first := Position.ofOffset source s.start
  let last := Position.ofOffset source s.stop
  if first.line = last.line then
    [Int32.ofNat first.line, Int32.ofNat first.column, Int32.ofNat last.column]
  else
    [Int32.ofNat first.line, Int32.ofNat first.column, Int32.ofNat last.line,
      Int32.ofNat last.column]

/-- The locations that a descriptor keeps. Options stand where `moves` takes them. -/
def locations (u : SourceUnit) (moves : List (List Int32 × List Int32)) : List Location :=
  u.marks.map fun m =>
    { path := (moves.lookup m.path).getD m.path
      span := spanNumbers u.source m.span
      leading := m.comments.leading
      trailing := m.comments.trailing
      detached := m.comments.detached }

end SourceUnit
end DescriptorKit.Language
