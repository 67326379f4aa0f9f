import SchemaMigration.Source.Grammar.Parameter

set_option autoImplicit false

namespace SchemaMigration.Source.Grammar

open Source.Parser

def endTypeMember (g : Grammar) : Parser Unit := do
  if ← lookingAt "," then symbol ","
  else if ← lookingAt ";" then symbol ";"
  else guard (← g.lineEnds false)

def indexKey (g : Grammar) : Parser Lexeme := do
  symbol "["
  let name ← word
  if ← lookingAt ":" then
    symbol ":"
    g.typeExpression false
  else
    keyword "in"
    g.typeExpression false
    if (← nextWord) == "as" then
      keyword "as"
      g.typeExpression false
  symbol "]"
  return name

def sign (mark : String) : Parser Unit := do
  if (← nextOperator) == "+" then operator "+"
  else if (← nextOperator) == "-" then operator "-"
  symbol mark

def indexSignature (g : Grammar) (breaks : Bool) : Parser Lexeme := do
  discard <| optionally do
    discard (optionally (operator "+" <|> operator "-"))
    keyword "readonly"
  let name ← g.indexKey
  discard (optionally (sign "?"))
  g.declaredType breaks
  return name

def typeMember (g : Grammar) : Parser Unit := do
  (discard (g.indexSignature true)
    <|> (do
      discard (optionally (keyword "new"))
      g.signature true)
    <|> (do
      discard (g.modifiers
        ["get", "set", "async", "readonly", "static", "public", "private", "protected", "override"]
        [':', ';', ',', '(', '<', '?', '\x7d'] true)
      discard g.key
      if (← nextOperator) == "?" then operator "?"
      if (← lookingAt "(") || (← lookingAt "<") then g.signature true
      else g.declaredType true))
  g.endTypeMember

def objectType (g : Grammar) : Parser Unit := do
  symbol "\x7b"
  discard <| repeatedly g.bound do
    if ← lookingAt "\x7d" then return none else return some (← g.typeMember)
  symbol "\x7d"

def tupleElement (g : Grammar) : Parser Unit := do
  if (← nextOperator) == "..." then operator "..."
  (do
    discard word
    discard (optionally (operator "?"))
    symbol ":"
    g.typeExpression false)
  <|> (do
    g.typeExpression false
    discard (optionally (operator "?")))

def typeName (g : Grammar) : Parser Unit := do
  discard word
  discard <| many g.bound do
    operator "."
    discard (token privateNameLength? <|> word)
  if ← lookingAt "<" then g.typeArguments

def typePrimary (g : Grammar) : Parser Unit := do
  match (← ahead).head? with
  | none => failure
  | some c =>
    if c == '(' then
      symbol "("
      g.typeExpression false
      symbol ")"
    else if c == '\x7b' then g.objectType
    else if c == '[' then
      symbol "["
      discard (g.separated "]" g.tupleElement)
    else if c == '\'' || c == '"' then discard (token stringLength?)
    else if c == '\x60' then
      discard <| located do
        symbol "\x60"
        discard <| repeatedly g.bound do
          let rest := (← here).rest
          if "$\x7b".toList.isPrefixOf rest then
            skip 2
            g.typeExpression false
            symbol "\x7d"
            return some ()
          else return (← g.templatePiece).map fun _ => ()
        skip 1
    else if c == '-' || c == '+' then
      symbol c.toString
      discard (token numberLength?)
    else if c.isDigit then discard (token numberLength?)
    else if c == '*' then symbol "*"
    else if (← nextWord) == "import" then
      keyword "import"
      discard g.arguments
      discard <| many g.bound do
        operator "."
        discard word
      if ← lookingAt "<" then g.typeArguments
    else if (← nextWord) == "typeof" then
      keyword "typeof"
      if (← nextWord) == "import" then
        keyword "import"
        discard g.arguments
      else discard word
      discard <| many g.bound do
        (operator "." *> discard (token privateNameLength? <|> word))
        <|> (operator "?." *> discard word)
      if ← lookingAt "<" then g.typeArguments
    else g.typeName

def typeOperand (g : Grammar) (breaks : Bool) : Parser Unit := do
  discard (g.modifiers ["keyof", "unique", "readonly"]
    [',', ';', ')', ']', '>', '=', '|', '&', '\x7d', '.', '['] false)
  if ← g.isModifier ["infer"] [',', ';', ')', ']', '>', '=', '|', '&', '\x7d'] false then
    keyword "infer"
    discard word
    discard <| optionally do
      keyword "extends"
      g.typeExpression false
  else g.typePrimary
  discard <| repeatedly g.bound do
    if (breaks && (← g.lineEnds false)) || !(← lookingAt "[") then return none
    else
      symbol "["
      if !(← lookingAt "]") then g.typeExpression false
      symbol "]"
      return some ()

def functionType (g : Grammar) (breaks : Bool) : Parser Unit := do
  discard (optionally (keyword "abstract"))
  discard (optionally (keyword "new"))
  g.optionalTypeParameters
  g.parameters
  operator "=>"
  g.predicate breaks <|> g.typeExpression breaks

def isTypeJoin (operator : String) : Bool :=
  operator == "|" || operator == "&"

def typeRule (g : Grammar) (breaks : Bool) : Parser Unit :=
  g.functionType breaks <|> do
    if isTypeJoin (← nextOperator) then operator (← nextOperator)
    g.typeOperand breaks
    discard <| repeatedly g.bound do
      let join ← nextOperator
      if (breaks && (← g.lineEnds false)) || !isTypeJoin join then return none
      else
        operator join
        g.functionType breaks <|> g.typeOperand breaks
        return some ()
    discard <| optionally do
      guard (!(breaks && (← g.lineEnds false)))
      keyword "extends"
      g.typeExpression false
      operator "?"
      g.typeExpression false
      symbol ":"
      g.typeExpression breaks

end SchemaMigration.Source.Grammar
