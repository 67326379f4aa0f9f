import SchemaMigration.Source.Grammar.Expression
import SchemaMigration.Source.Grammar.Export

set_option autoImplicit false

namespace SchemaMigration.Source.Grammar

open Source.Parser

def expressionStatement (g : Grammar) : Parser Unit := do
  discard (g.sequence true)
  g.endStatement true

def blockStatement (g : Grammar) : Parser Unit := do
  let isEmpty ← follows (symbol "\x7b" *> symbol "\x7d")
  g.block isEmpty

def condition (g : Grammar) : Parser Unit :=
  discard g.parentheses

def markupComment : Parser Lexeme :=
  token markupCommentLength?

def body (g : Grammar) : Parser Unit := do
  discard (many g.bound markupComment)
  discard g.statement

def ifStatement (g : Grammar) : Parser Unit := do
  keyword "if"
  g.condition
  g.body
  if (← nextWord) == "else" then
    keyword "else"
    g.body

def caseBody (g : Grammar) : Parser Unit := do
  symbol ":"
  discard <| repeatedly g.bound do
    let name ← nextWord
    if name == "case" || name == "default" || (← lookingAt "\x7d") then return none
    else return some (← g.statement)

def switchStatement (g : Grammar) : Parser Unit := do
  keyword "switch"
  g.condition
  symbol "\x7b"
  discard <| repeatedly g.bound do
    if ← lookingAt "\x7d" then return none
    else
      if (← nextWord) == "case" then
        keyword "case"
        discard (g.sequence false)
      else keyword "default"
      return some (← g.caseBody)
  symbol "\x7d"

def eachHead (g : Grammar) : Parser Unit := do
  symbol "("
  (do
    keyword "const" <|> keyword "let" <|> keyword "var"
    discard g.binding
    discard (g.optionalInitializer false)
    keyword "in" <|> keyword "of")
  <|> (do
    g.pattern <|> g.condition
    keyword "in" <|> keyword "of")
  discard (g.sequence false)
  symbol ")"

def countHead (g : Grammar) : Parser Unit := do
  symbol "("
  (do
    keyword "const" <|> keyword "let" <|> keyword "var"
    discard g.declarators
    symbol ";")
  <|> symbol ";"
  <|> (do
    discard (g.sequence false)
    symbol ";")
  if !(← lookingAt ";") then discard (g.sequence false)
  symbol ";"
  if !(← lookingAt ")") then discard (g.sequence false)
  symbol ")"

def forStatement (g : Grammar) : Parser Unit := do
  keyword "for"
  discard (optionally (keyword "await"))
  g.eachHead <|> g.countHead
  g.body

def whileStatement (g : Grammar) : Parser Unit := do
  keyword "while"
  g.condition
  g.body

def doStatement (g : Grammar) : Parser Unit := do
  keyword "do"
  g.body
  keyword "while"
  g.condition
  discard (optionally (g.endStatement false))

def withStatement (g : Grammar) : Parser Unit := do
  keyword "with"
  g.condition
  g.body

def tryStatement (g : Grammar) : Parser Unit := do
  keyword "try"
  g.block false
  if (← nextWord) == "catch" then
    keyword "catch"
    if ← lookingAt "(" then
      symbol "("
      discard g.binding
      g.declaredType false
      symbol ")"
    g.block false
  if (← nextWord) == "finally" then
    keyword "finally"
    g.block false

def jumpStatement (g : Grammar) : Parser Unit := do
  keyword "break" <|> keyword "continue"
  if !(← g.lineEnds false) && (← nextWord) != "" then discard word
  g.endStatement false

def returnStatement (g : Grammar) : Parser Unit := do
  keyword "return"
  if (← g.lineEnds false) || (← lookingAt ";") then g.endStatement false
  else g.expressionStatement

def throwStatement (g : Grammar) : Parser Unit := do
  keyword "throw"
  g.expressionStatement

def labeledStatement (g : Grammar) : Parser Unit := do
  discard word
  symbol ":"
  g.body

def ruleOf? (g : Grammar) (word : String) : Option (Parser Unit) :=
  match word with
  | "if" => g.ifStatement
  | "switch" => g.switchStatement
  | "for" => g.forStatement
  | "while" => g.whileStatement
  | "do" => g.doStatement
  | "with" => g.withStatement
  | "try" => g.tryStatement
  | "break" | "continue" => g.jumpStatement
  | "return" => g.returnStatement
  | "throw" => g.throwStatement
  | "debugger" => some do
    keyword "debugger"
    g.endStatement false
  | _ => none

def declares (g : Grammar) (word : String) : Bool :=
  ["const", "var"].contains word || g.isTyped && ["interface", "enum", "abstract"].contains word

def namespaceStatement (g : Grammar) : Parser Unit := do
  guard (g.isTyped && (← nextWord) == "namespace")
  g.moduleDeclaration true
  g.endStatement true

def otherStatement (g : Grammar) : Parser Statement := do
  -- These start with words that are names as well, so they come before plain expressions.
  (Statement.other <$> extent (g.namespaceStatement <|> g.ambientDeclaration true))
  <|> Statement.declared <$> g.declaration true
  <|> Statement.other <$> extent (g.labeledStatement <|> g.expressionStatement)

def statementRule (g : Grammar) : Parser Statement := do
  let name ← nextWord
  match g.ruleOf? name with
  | some rule => return .other (← extent rule)
  | none =>
    if name == "import" then
      g.importStatement <|> Statement.other <$> extent g.expressionStatement
    else if name == "export" then g.exportStatement
    else if g.declares name then return .declared (← g.declaration true)
    else if ← lookingAt ";" then return .other (← extent (symbol ";"))
    else if ← follows markupComment then return .other (← extent markupComment)
    else if ← lookingAt "\x7b" then
      return .other (← extent (g.blockStatement <|> g.expressionStatement))
    else if ← lookingAt "@" then g.exportStatement <|> g.otherStatement
    else g.otherStatement

end SchemaMigration.Source.Grammar
