import SchemaMigration.Source.Grammar.Import
import SchemaMigration.Source.Grammar.Class

set_option autoImplicit false

namespace SchemaMigration.Source.Grammar

open Source.Parser

def classDeclaration (g : Grammar) (operator : Bool) : Parser Declared := do
  let (definition, lexeme) ← located do
    discard g.decorators
    if g.isTyped && (← nextWord) == "abstract" then
      keyword "abstract"
      g.classRest true
    else
      let definition ← g.classRest true
      g.takeTrailing operator
      return definition
  return .classDefinition lexeme definition

def declarator (g : Grammar) : Parser Declarator := do
  let name ← g.binding
  if g.isTyped && (← nextOperator) == "!" then operator "!"
  g.declaredType true
  let value ← g.optionalInitializer true
  return { name, value }

def declarators (g : Grammar) : Parser (List Declarator) := do
  let first ← g.declarator
  let more ← many g.bound do
    symbol ","
    g.declarator
  return first :: more

def declarationWord (g : Grammar) (couldBeName : Bool) (text : String) : Parser Unit := do
  keyword text
  -- Where it could also be a name, a line break makes it one.
  guard (!(couldBeName && (← g.lineEnds true)))

def variableDeclaration (g : Grammar) (couldBeName : Bool) : Parser Declared := do
  let (declarators, lexeme) ← located do
    keyword "const" <|> g.declarationWord couldBeName "let" <|> keyword "var"
    let declarators ← g.declarators
    g.endStatement (declarators.getLast?.any fun d => d.value.isSome)
    return declarators
  return .variables lexeme declarators

def interfaceDeclaration (g : Grammar) : Parser Unit := do
  keyword "interface"
  discard word
  g.optionalTypeParameters
  if (← nextWord) == "extends" then
    keyword "extends"
    g.typeExpression false
    discard <| many g.bound do
      symbol ","
      g.typeExpression false
  g.objectType

def enumDeclaration (g : Grammar) : Parser Unit := do
  discard (optionally (keyword "const"))
  keyword "enum"
  discard word
  symbol "\x7b"
  discard <| g.separated "\x7d" do
    discard g.key
    discard (g.optionalInitializer false)

def typeAlias (g : Grammar) (couldBeName : Bool) : Parser Unit := do
  g.declarationWord couldBeName "type"
  discard word
  g.optionalTypeParameters
  operator "="
  g.typeExpression true
  g.endStatement false

def moduleRest (g : Grammar) : Parser Unit := do
  discard (token stringLength?) <|> (do
    discard word
    discard <| many g.bound do
      operator "."
      discard word)
  if ← lookingAt "\x7b" then g.block true

def moduleDeclaration (g : Grammar) (couldBeName : Bool) : Parser Unit := do
  g.declarationWord couldBeName "module" <|> g.declarationWord couldBeName "namespace"
  g.moduleRest

def plainDeclaration (g : Grammar) (operator : Bool) : Parser Unit := do
  let name ← nextWord
  if name == "function" || name == "async" then g.functionDeclaration operator
  else
    guard g.isTyped
    if name == "interface" then g.interfaceDeclaration
    else if name == "enum" || name == "const" then g.enumDeclaration
    else if name == "type" then g.typeAlias operator
    else if name == "module" || name == "namespace" then g.moduleDeclaration operator
    else if name == "import" then keyword "import" *> g.importAlias
    else failure

def declaration (g : Grammar) (operator : Bool) : Parser Declared := do
  (Declared.other <$> extent (g.plainDeclaration operator))
  <|> g.variableDeclaration operator
  <|> g.classDeclaration operator

def ambientDeclaration (g : Grammar) (couldBeName : Bool) : Parser Unit := do
  guard g.isTyped
  g.declarationWord couldBeName "declare"
  (do
    keyword "global"
    g.block false)
  <|> discard (g.declaration false)

end SchemaMigration.Source.Grammar
