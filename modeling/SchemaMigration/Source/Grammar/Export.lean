import SchemaMigration.Source.Grammar.Declaration

set_option autoImplicit false

namespace SchemaMigration.Source.Grammar

open Source.Parser

def exportSpecifier (g : Grammar) : Parser Unit := do
  let named : Parser Unit := do
    discard moduleName
    if (← nextWord) == "as" then
      keyword "as"
      discard moduleName
    guard ((← lookingAt ",") || (← lookingAt "\x7d"))
  named <|> (do
    guard g.isTyped
    keyword "type" <|> keyword "typeof"
    named)

def exportClause (g : Grammar) : Parser Unit := do
  symbol "\x7b"
  discard (g.separatedNames "\x7d" g.exportSpecifier)

def fromModule : Parser Unit := do
  keyword "from"
  discard (token stringLength?)

def exportList (g : Grammar) : Parser Unit := do
  if ← lookingAt "*" then
    symbol "*"
    if (← nextWord) == "as" then
      keyword "as"
      discard moduleName
    fromModule
    g.endStatement false
  else if ← lookingAt "\x7b" then
    g.exportClause
    discard (optionally fromModule)
    g.endStatement false
  else
    guard g.isTyped
    if (← nextOperator) == "=" then
      operator "="
      discard (g.expression true)
      g.endStatement true
    else if (← nextWord) == "as" then
      keyword "as"
      keyword "namespace"
      discard word
      g.endStatement false
    else
      keyword "type"
      g.exportClause
      discard (optionally fromModule)
      g.endStatement false

def defaultValue (g : Grammar) : Parser Exported := do
  Exported.declared <$> g.declaration true
  <|> (do
    let value ← g.expression true
    g.endStatement true
    return .value value)

def exportStatement (g : Grammar) : Parser Statement := do
  let (make, lexeme) ← located do
    let decorators ← g.decorators
    keyword "export"
    if (← nextWord) == "default" then
      keyword "default"
      let exported ← g.defaultValue
      return (Statement.exportDefault · exported)
    else
      (do
        guard decorators.isEmpty
        g.exportList
        return Statement.other)
      <|> (do
        g.ambientDeclaration false
        return Statement.other)
      <|> (do
        let declared ← g.declaration false
        return (Statement.exportDeclared · declared))
  return make lexeme

end SchemaMigration.Source.Grammar
