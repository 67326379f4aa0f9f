import SchemaMigration.Source.Grammar.Type

set_option autoImplicit false

namespace SchemaMigration.Source.Grammar

open Source.Parser

def braces (g : Grammar) : Parser Unit := do
  symbol "\x7b"
  discard <| repeatedly g.bound do
    if ← lookingAt "\x7d" then return none else return some (← g.statement)
  symbol "\x7d"

def block (g : Grammar) (operator : Bool) : Parser Unit := do
  g.braces
  g.takeTrailing operator

def asyncMark (g : Grammar) (breaks : Bool) : Parser Unit := do
  keyword "async"
  -- Where a line break may end an expression, one here makes the word a name.
  guard (!(breaks && (← g.lineEnds true)))

def functionHead (g : Grammar) (breaks : Bool) : Parser Unit := do
  discard (optionally (g.asyncMark breaks))
  keyword "function"
  if ← lookingAt "*" then symbol "*"

def functionLiteral (g : Grammar) (breaks : Bool) : Parser Unit := do
  g.functionHead breaks
  if !(← lookingAt "(") && !(← lookingAt "<") then discard word
  g.signature false
  g.block true

def functionDeclaration (g : Grammar) (operator : Bool) : Parser Unit := do
  g.functionHead operator
  discard word
  g.signature g.isTyped
  if ← lookingAt "\x7b" then g.block operator
  else
    guard g.isTyped
    g.endStatement false

def arrowBody (g : Grammar) (breaks : Bool) : Parser Unit := do
  operator "=>"
  if ← lookingAt "\x7b" then g.block true <|> discard (g.expression breaks)
  else discard (g.expression breaks)

def arrowFunction (g : Grammar) (breaks : Bool) : Parser Unit := do
  (do
    discard word
    g.arrowBody breaks)
  <|> (do
    discard (optionally (g.asyncMark breaks))
    if (← lookingAt "(") || (g.isTyped && (← lookingAt "<")) then g.signature false
    else discard word
    g.arrowBody breaks)

end SchemaMigration.Source.Grammar
