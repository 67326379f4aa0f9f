import SchemaMigration.Source.Grammar.Basic

set_option autoImplicit false

namespace SchemaMigration.Source.Grammar

open Source.Parser

def typeArguments (g : Grammar) : Parser Unit := do
  symbol "<"
  discard (g.separated ">" (g.typeExpression false))

def typeParameters (g : Grammar) : Parser Unit := do
  symbol "<"
  discard <| g.separated ">" do
    discard (g.modifiers ["const", "in", "out"] [',', '=', '>'] false)
    discard word
    if (← nextWord) == "extends" then
      keyword "extends"
      g.typeExpression false
    if ← lookingAt "=" then
      symbol "="
      g.typeExpression false

def optionalTypeParameters (g : Grammar) : Parser Unit := do
  if g.isTyped && (← lookingAt "<") then g.typeParameters

def predicate (g : Grammar) (breaks : Bool) : Parser Unit := do
  let asserts ← optionally do
    keyword "asserts"
    guard (!(← g.lineEnds false))
  let name ← word
  if asserts.isSome && (← nextWord) != "is" then guard (name.text != "is")
  else
    keyword "is"
    g.typeExpression breaks

def declaredType (g : Grammar) (breaks : Bool) : Parser Unit := do
  if g.isTyped && (← lookingAt ":") then
    symbol ":"
    g.typeExpression breaks

def optionalResult (g : Grammar) (breaks : Bool) : Parser Unit := do
  if g.isTyped && (← lookingAt ":") then
    symbol ":"
    g.predicate breaks <|> g.typeExpression breaks

def optionalInitializer (g : Grammar) (breaks : Bool) : Parser (Option Expr) := do
  if (← nextOperator) == "=" then
    operator "="
    return some (← g.expression breaks)
  else return none

end SchemaMigration.Source.Grammar
