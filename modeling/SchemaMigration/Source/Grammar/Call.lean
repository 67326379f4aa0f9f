import SchemaMigration.Source.Grammar.DeclaredType

set_option autoImplicit false

namespace SchemaMigration.Source.Grammar

open Source.Parser

def spread (g : Grammar) : Parser Expr := do
  return .other (← extent do
    operator "..."
    discard (g.expression false))

def arguments (g : Grammar) : Parser (List Expr) := do
  symbol "("
  g.separatedLoosely ")" (g.spread <|> g.expression false)

def templatePiece (g : Grammar) : Parser (Option Lexeme) := do
  let start ← here
  match start.rest with
  | '\x60' :: _ => return none
  | '\\' :: _ =>
    match escapeLength? start.rest with
    | some n => skip n
    | none => failure
    return some (start.lexemeTo (← here))
  | '$' :: '\x7b' :: _ =>
    skip 2
    discard (g.sequence false)
    symbol "\x7d"
    return some (start.lexemeTo (← here))
  | _ =>
    let n := templateTextLength start.rest
    guard (0 < n)
    skip n
    return some (start.lexemeTo (← here))

def template (g : Grammar) : Parser (Lexeme × List Lexeme) := do
  let (pieces, lexeme) ← located do
    symbol "\x60"
    let pieces ← repeatedly g.bound g.templatePiece
    skip 1
    return pieces
  return (lexeme, pieces)

def decoratorExpression (g : Grammar) : Parser Expr := do
  trivia
  let start ← here
  let steps ← do
    discard word
    many g.bound do
      operator "."
      let property ← word
      return (property, start.lexemeTo (← here))
  let head : Expr := .identifier (start.lexemeTo (start.skip start.word.length))
  let callee := steps.foldl (fun object (property, lexeme) => .access lexeme object property) head
  if g.isTyped && (← lookingAt "<") then g.typeArguments
  if ← lookingAt "(" then
    let args ← g.arguments
    return .call (start.lexemeTo (← here)) callee args
  else return callee

def decorator (g : Grammar) : Parser Decorator := do
  let (expression, lexeme) ← located do
    symbol "@"
    -- A comment right after the at sign hides the expression.
    let hidden ← lookahead comment
    let expression ←
      if g.isTyped && (← lookingAt "(") then
        Expr.other <$> extent (symbol "(" *> g.sequence false *> symbol ")")
      else g.decoratorExpression
    return hidden.elim expression Expr.other
  return .mk lexeme expression

def decorators (g : Grammar) : Parser (List Decorator) :=
  repeatedly g.bound do
    if ← lookingAt "@" then return some (← g.decorator) else return none

end SchemaMigration.Source.Grammar
