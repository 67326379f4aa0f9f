import SchemaMigration.Source.Grammar.Class
import SchemaMigration.Source.Grammar.Markup

set_option autoImplicit false

namespace SchemaMigration.Source.Grammar

open Source.Parser

def bracketed (g : Grammar) (literal : Parser Expr) : Parser Expr :=
  literal <|> do
    let lexeme ← extent g.destructuring
    guard ((← nextOperator) == "=")
    return .target lexeme

def classLiteral (g : Grammar) : Parser Expr := do
  let (definition, lexeme) ← located do
    discard g.decorators
    g.classRest false
  return .classLiteral lexeme definition

def wordValue (g : Grammar) : Parser Expr := do
  let name ← nextWord
  if name == "null" then return .null (← word)
  else if name == "true" || name == "false" then return .boolean (← word) (name == "true")
  else if name == "class" then g.classLiteral
  else if ["this", "super", "undefined"].contains name then return .other (← word)
  else if name == "import" then
    return .other (← extent do
      keyword "import"
      if (← nextOperator) == "." then
        operator "."
        keyword "meta"
      else guard (← lookingAt "("))
  else
    guard (!(["new", "typeof", "void", "delete", "await", "yield", "function"].contains name))
    return .identifier (← word)

def arrowOrFunction (g : Grammar) (breaks : Bool) : Parser Expr := do
  return .other (← extent (g.arrowFunction breaks <|> g.functionLiteral breaks))

def primary (g : Grammar) (breaks : Bool) : Parser Expr := do
  match ← ahead with
  | [] => failure
  | c :: rest =>
    if c == '\'' || c == '"' then return .string (← token stringLength?)
    else if c == '\x60' then return .template (← g.template).1
    else if c.isDigit || (c == '.' && rest.head?.any Char.isDigit) then
      return .number (← token numberLength?)
    else if c == '/' then return .other (← token regexLength?)
    else if c == '[' then g.bracketed g.arrayLiteral
    else if c == '\x7b' then g.bracketed g.objectLiteral
    else if c == '(' then g.arrowOrFunction breaks <|> g.parentheses
    else if c == '#' then
      let name ← token privateNameLength?
      guard ((← nextWord) == "in")
      return .other name
    else if c == '@' then g.classLiteral
    else if c == '<' then
      if g.isTyped then g.arrowOrFunction breaks else return .other (← extent g.markup)
    else g.arrowOrFunction breaks <|> g.wordValue

-- With types, a call may have type arguments after the mark.
def optionalMark (g : Grammar) (calls : Bool) : Parser Unit := do
  operator "?."
  guard calls
  if g.isTyped && (← lookingAt "<") then
    g.typeArguments
    guard (← lookingAt "(")

def placeOrCall (g : Grammar) (start : Cursor) (calls : Bool) (value : Expr) : Parser Expr := do
  let mark ← nextOperator
  let isOptional := mark == "?."
  if isOptional then g.optionalMark calls
  if (← lookingAt "(") then
    guard calls
    let arguments ← g.arguments
    return .call (start.lexemeTo (← here)) value arguments
  else if ← lookingAt "[" then
    symbol "["
    discard (g.sequence false)
    symbol "]"
    return .target (start.lexemeTo (← here))
  else if mark == "." || isOptional then
    if !isOptional then operator "."
    let property ← token privateNameLength? <|> word
    return .access (start.lexemeTo (← here)) value property
  else if ← lookingAt "\x60" then
    let (_, pieces) ← g.template
    return .call (start.lexemeTo (← here)) value (pieces.map .other)
  else failure

def typedStep (g : Grammar) (start : Cursor) (calls : Bool) (value : Expr) : Parser Expr := do
  guard (g.isTyped && calls)
  if (← nextOperator) == "!" then
    operator "!"
    return .target (start.lexemeTo (← here))
  else
    g.typeArguments
    if ← lookingAt "(" then
      let arguments ← g.arguments
      return .call (start.lexemeTo (← here)) value arguments
    else if ← lookingAt "\x60" then
      let (_, pieces) ← g.template
      return .call (start.lexemeTo (← here)) value (pieces.map .other)
    else
      guard ((← ahead).head?.all [')', ']', ',', ';', ':', '.', '\x7d', '?', '|', '&'].contains
        || (← g.lineEnds true))
      return .other (start.lexemeTo (← here))

def steps (g : Grammar) (breaks calls : Bool) (start : Cursor) (value : Expr) : Parser Expr :=
  growing g.bound (fun value => do
    if breaks && (← g.lineEnds true) then return none
    else optionally (g.placeOrCall start calls value <|> g.typedStep start calls value)) value

def construction (g : Grammar) (breaks : Bool) : Parser Expr := do
  trivia
  let start ← here
  let first ← extent (keyword "new")
  if (← nextOperator) == "." then
    operator "."
    keyword "target"
    return .other (start.lexemeTo (← here))
  else
    let more ← many g.bound (keyword "new")
    trivia
    let inner ← here
    discard (g.steps breaks false inner (← g.primary breaks))
    discard <| (first :: more.map fun _ => first).mapM fun _ => do
      discard <| optionally do
        guard (g.isTyped && (← lookingAt "<"))
        g.typeArguments
      if ← lookingAt "(" then discard g.arguments
    return .other (start.lexemeTo (← here))

def countable (g : Grammar) (breaks : Bool) : Parser Expr := do
  trivia
  let start ← here
  let value ← if (← nextWord) == "new" then g.construction breaks else g.primary breaks
  let value ← g.steps breaks true start value
  if breaks && (← g.lineEnds true) then return value
  else
    let mark ← nextOperator
    if mark == "++" || mark == "--" then
      operator mark
      return .other (start.lexemeTo (← here))
    else return value

def leadingOperator (g : Grammar) : Parser Unit := do
  let mark ← nextOperator
  if ["!", "~", "-", "+", "++", "--"].contains mark then operator mark
  else if ["typeof", "void", "delete", "await"].contains (← nextWord) then discard word
  else
    guard (g.isTyped && (← lookingAt "<"))
    guard !(← follows (g.signature false *> operator "=>"))
    g.typeArguments

def operand (g : Grammar) (breaks : Bool) : Parser Expr := do
  let ((marks, value), lexeme) ← located do
    let marks ← many g.bound g.leadingOperator
    return (marks, ← g.countable breaks)
  return if marks.isEmpty then value else .other lexeme

structure Chain where
  whole : Expr
  lastStart : Cursor
  last : Expr

def isAssignable (g : Grammar) (chain : Chain) : Parser Bool := do
  match chain.last with
  | .identifier _ | .access .. | .target _ | .parenthesized .. => return true
  | .array lexeme _ | .object lexeme _ =>
    match g.destructuring.run chain.lastStart with
    | some (_, stop) => return stop.offset == lexeme.span.stop
    | none => return false
  | _ => return false

def isWordOperator (word : String) : Bool :=
  word == "in" || word == "instanceof"

def chainStep (g : Grammar) (breaks : Bool) (start : Cursor) (chain : Chain) : Parser Chain := do
  let mark ← nextOperator
  let name ← nextWord
  let closed : Parser Chain := do
    let whole := .other (start.lexemeTo (← here))
    return { whole, lastStart := start, last := whole }
  if binaryOperators.contains mark || isWordOperator name then
    if isWordOperator name then discard word else operator mark
    trivia
    let lastStart ← here
    let last ← g.operand breaks
    return { whole := .other (start.lexemeTo (← here)), lastStart, last }
  else if g.isTyped && (name == "as" || name == "satisfies") then
    discard word
    if (← nextWord) == "const" then keyword "const" else g.typeExpression breaks
    closed
  else if mark == "?" then
    operator "?"
    (do
      discard (g.expression false)
      symbol ":")
    <|> (do
      trivia
      discard (g.steps false true (← here) (← g.parentheses))
      symbol ":")
    discard (g.expression breaks)
    closed
  else
    guard (assignmentOperators.contains mark && (← g.isAssignable chain))
    operator mark
    discard (g.expression breaks)
    closed

def yielded (g : Grammar) (breaks : Bool) : Parser Expr := do
  return .other (← extent do
    keyword "yield"
    if breaks && (← g.lineEnds true) then return ()
    else if ← lookingAt "*" then
      symbol "*"
      discard (g.expression breaks)
    else discard (optionally (g.expression breaks)))

def heritageRule (g : Grammar) : Parser Expr := do
  -- With types, a value and its steps come first, so that type arguments may follow them.
  (do
    guard g.isTyped
    trivia
    let start ← here
    let value ← if (← nextWord) == "new" then g.construction false else g.primary false
    let value ← g.steps false true start value
    guard ((← ahead).head?.any ['\x7b', '<', ','].contains || (← nextWord) == "implements")
    return value)
  <|> g.expression false

def expressionRule (g : Grammar) (breaks : Bool) : Parser Expr := do
  if (← nextWord) == "yield" then g.yielded breaks
  else
    trivia
    let start ← here
    let first ← g.operand breaks
    let chain ← growing g.bound (fun chain => do
      if breaks && (← g.lineEnds true) then return none
      else optionally (g.chainStep breaks start chain))
      { whole := first, lastStart := start, last := first }
    return chain.whole

end SchemaMigration.Source.Grammar
