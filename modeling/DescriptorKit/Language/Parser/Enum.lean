import DescriptorKit.Language.Parser.Range

/-!
Enums and their values.
-/
namespace DescriptorKit.Language.Parser

/-- An enum that is being read. -/
structure EnumBody where
  values : List EnumValueDecl := []
  options : List Assignment := []
  reserved : Reserved := {}

def enumValue (path : List Int32) : Parser EnumValueDecl := do
  let start ← here
  let (name, span) ← identifier
  mark (path ++ [1]) span
  expectMark '='
  let number ← integer
  Numbers.ofEnum.check number
  mark (path ++ [2]) number.2
  if !(← looksAt (.mark '[')) && !(← looksAt (.mark ';')) then unexpected "';' or '['"
  let options ← attachedOptions (path ++ [3])
  let comments ← endDeclaration ';'
  mark path (← since start) comments
  return {
    name, number := Int32.ofInt number.1, options := ← held "EnumValueOptions" options }

/-- One statement of an enum, unless it ends here. -/
def enumStatement (path : List Int32) (b : EnumBody) : Parser (Option EnumBody) := do
  match ← peek? with
  | some (.mark ';') =>
    emptyStatement
    return some b
  | some (.mark '\x7d') => return none
  | some (.word "option") =>
    let o ← optionStatement (path ++ [3]) b.options.length
    return some { b with options := b.options ++ [o] }
  | some (.word "reserved") =>
    return some { b with reserved := ← reserved path 4 5 b.reserved }
  | some (.word _) =>
    let v ← enumValue (MessageDecl.childPath path 2 b.values.length)
    return some { b with values := b.values ++ [v] }
  | _ => unexpected "an identifier, '\x7d', 'reserved' or 'option'"

def enum (path : List Int32) : Parser EnumDecl := do
  let start ← here
  expectWord "enum"
  let (name, span) ← identifier
  mark (path ++ [1]) span
  let comments ← endDeclaration '\x7b'
  let b ← repeatedly (enumStatement path) {}
  closeScope
  mark path (← since start) comments
  b.reserved.check .ofEnum
  return {
    name, values := b.values, options := ← held "EnumOptions" b.options
    reservedRanges := b.reserved.ranges.map WrittenRange.ofEnum
    reservedNames := b.reserved.names }

end DescriptorKit.Language.Parser
