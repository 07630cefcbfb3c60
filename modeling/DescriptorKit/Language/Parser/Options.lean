import DescriptorKit.Language.Constant
import DescriptorKit.Language.Parser.Basic

/-!
Options in a source: statements of their own, or lists in brackets behind a declaration. They are
kept as they are written; each stands under the path of the options it belongs to.
-/
namespace DescriptorKit.Language.Parser

/-- The path of an option that is still unread. -/
def optionPath (path : List Int32) (index : Nat) : List Int32 :=
  MessageDecl.childPath path 999 index

def namePart : Parser NamePart := do
  match ← peek? with
  | some (.mark '(') =>
    advance
    let (name, _) ← typeName [.mark ')']
    expectMark ')'
    return ⟨name, true⟩
  | some (.word s) =>
    advance
    return ⟨s, false⟩
  | _ => unexpected "an identifier or '('"

def optionName : Parser (List NamePart) := do
  let first ← namePart
  repeatedly (fun parts => do
    if ← tryTake (.mark '.') then return some (parts ++ [← namePart])
    else if ← looksAt (.mark '=') then return none
    else unexpected "'=' or '.'") [first]

/-- The tokens up to the brace that closes the one taken last. -/
def tokensInBraces : Parser (List Token) := do
  let (_, ts) ← repeatedly (fun (depth, ts) => do
    match ← peek? with
    | none => unexpected "'\x7d'"
    | some t =>
      let depth := match t with
        | .mark '\x7b' => depth + 1
        | .mark '\x7d' => depth - 1
        | _ => depth
      if depth = 0 then return none
      else
        advance
        return some (depth, t :: ts)) (1, ([] : List Token))
  return ts.reverse

/-- What stands between braces, one blank between two tokens. There comments may start with `#`, and
numbers be marked as fractions. -/
def braces : Parser String := do
  let faults := (← get).faults
  expectMark '\x7b'
  let ts ← tokensInBraces
  let stop ← here
  expectMark '\x7d'
  modify fun r =>
    let inside (f : Fault) : Bool := f.spans.any (·.start < stop)
    { r with
      faults := r.faults.filter fun f => faults.contains f || !(f.isLenient && inside f) }
  return String.intercalate " " (ts.map Token.shown)

def constant : Parser Constant := do
  let negative ← tryTake (.mark '-')
  match ← peek? with
  | some (.int n) =>
    advance
    return .int negative n
  | some (.float bits) =>
    advance
    return .float (if negative then (-Float.ofBits bits).toBits else bits)
  | some (.word s) =>
    advance
    return .word negative s
  | _ =>
    if negative then unexpected "a numeric literal"
    else
      match ← peek? with
      | some (.text _) =>
        let (b, _) ← text "a string"
        return .text b
      | some (.mark '\x7b') => return .braces (← braces)
      | _ => unexpected "a constant"

/-- A name and a constant for it, and where they stand. -/
structure Assignment where
  name : List NamePart
  value : Constant
  span : Span
  valueSpan : Span

def assignment : Parser Assignment := do
  let start ← here
  let name ← optionName
  expectMark '='
  let valueStart ← here
  let value ← constant
  return ⟨name, value, ← since start, ← since valueStart⟩

/-- What a check comes to; what is wrong is told in the end. -/
def checked {α : Type} (fallback : α) : Except Fault α → Parser α
  | .ok a => return a
  | .error f => do
    noteLate f
    return fallback

/-- The assignment as an option that is still unread. -/
def Assignment.option (a : Assignment) : Except Fault WrittenOption := do
  return ⟨a.name, [← a.value.written a.valueSpan]⟩

/-- The message that holds options, unless there are none. What is wrong with their values is told
when it is made. -/
def held (type : String) (as : List Assignment) : Parser (Option Message) := do
  let os ← as.mapM fun a => checked ⟨a.name, []⟩ a.option
  return if os.isEmpty then none else some (WrittenOption.holder type os)

/-- An option statement. `path` is that of the options it belongs to, and `index` the number of
those before it. -/
def optionStatement (path : List Int32) (index : Nat) : Parser Assignment := do
  let start ← here
  expectWord "option"
  let a ← assignment
  let comments ← endDeclaration ';'
  let span ← since start
  mark path span
  mark (optionPath path index) span comments
  return a

/-- Options in brackets, and where the brackets stand. -/
def bracketedOptions : Parser (List Assignment × Span) := do
  let start ← here
  expectMark '['
  let first ← assignment
  let all ← repeatedly (fun as => do
    if ← tryTake (.mark ',') then return some (as ++ [← assignment]) else return none) [first]
  if ← tryTake (.mark ']') then return (all, ← since start)
  else unexpected "',' or ']'"

/-- Options in brackets if there are any, at a path. -/
def attachedOptions (path : List Int32) : Parser (List Assignment) := do
  if ← looksAt (.mark '[') then
    let (as, span) ← bracketedOptions
    mark path span
    as.zipIdx.forM fun (a, i) => mark (optionPath path i) a.span
    return as
  else return []

end DescriptorKit.Language.Parser
