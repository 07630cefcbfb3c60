import DescriptorKit.Language.Parser.Options

/-!
Services and their methods.
-/
namespace DescriptorKit.Language.Parser

/-- A message type in parentheses, which may be said to be a stream. -/
def methodType (path : List Int32) (typeField streamField : Int32) :
    Parser (String × Option Bool) := do
  expectMark '('
  let start ← here
  let streams ← tryTake (.word "stream")
  if streams then mark (path ++ [streamField]) (← since start)
  let (name, span) ←
    typeName [.mark ')'] (if streams then "a type name" else "'stream' or a type name")
  mark (path ++ [typeField]) span
  expectMark ')'
  return (name, if streams then some true else none)

/-- The options in the braces behind a method. -/
def methodBody (path : List Int32) : Parser (List Assignment) := do
  openScope
  repeatedly (fun os => do
    match ← peek? with
    | some (.mark ';') =>
      emptyStatement
      return some os
    | some (.mark '\x7d') => return none
    | some (.word "option") =>
      return some (os ++ [← optionStatement (path ++ [4]) os.length])
    | _ => unexpected "'option', '\x7d' or ';'") ([] : List Assignment)

/-- A method. The comment behind it stands behind all of it. -/
def method (path : List Int32) : Parser MethodDecl := do
  let start ← here
  let comments ← commentsAhead
  expectWord "rpc"
  let (name, span) ← identifier
  mark (path ++ [1]) span
  let (input, clientStreaming) ← methodType path 2 5
  expectWord "returns"
  let (output, serverStreaming) ← methodType path 3 6
  let os ←
    if ← looksAt (.mark ';') then pure []
    else if ← looksAt (.mark '\x7b') then methodBody path
    else unexpected "';' or '\x7b'"
  let last ← if ← looksAt (.mark ';') then endDeclaration ';' else endDeclaration '\x7d'
  mark path (← since start) { comments with trailing := last.trailing }
  return {
    name, input, output, clientStreaming, serverStreaming
    options := ← held "MethodOptions" os }

/-- A service that is being read. -/
structure ServiceBody where
  methods : List MethodDecl := []
  options : List Assignment := []

/-- One statement of a service, unless it ends here. -/
def serviceStatement (path : List Int32) (b : ServiceBody) : Parser (Option ServiceBody) := do
  match ← peek? with
  | some (.mark ';') =>
    emptyStatement
    return some b
  | some (.mark '\x7d') => return none
  | some (.word "option") =>
    let o ← optionStatement (path ++ [3]) b.options.length
    return some { b with options := b.options ++ [o] }
  | some (.word "rpc") =>
    let m ← method (MessageDecl.childPath path 2 b.methods.length)
    return some { b with methods := b.methods ++ [m] }
  | _ => unexpected "'rpc', '\x7d', 'option' or ';'"

def service (path : List Int32) : Parser ServiceDecl := do
  let start ← here
  expectWord "service"
  let (name, span) ← identifier
  mark (path ++ [1]) span
  let comments ← endDeclaration '\x7b'
  let b ← repeatedly (serviceStatement path) {}
  closeScope
  mark path (← since start) comments
  return { name, methods := b.methods, options := ← held "ServiceOptions" b.options }

end DescriptorKit.Language.Parser
