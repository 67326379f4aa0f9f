import SchemaMigration.Source.Grammar.Call

set_option autoImplicit false

namespace SchemaMigration.Source.Grammar

open Source.Parser

def patternEntry (g : Grammar) : Parser Unit := do
  if (← nextOperator) == "..." then g.pattern
  else
    let key ← g.key
    if ← lookingAt ":" then
      symbol ":"
      g.pattern
    else guard (key.form == .name)
    discard (g.optionalInitializer false)

def destructuring (g : Grammar) : Parser Unit := do
  if ← lookingAt "\x7b" then
    symbol "\x7b"
    discard (g.separatedLoosely "\x7d" g.patternEntry)
  else
    symbol "["
    discard <| g.separatedLoosely "]" do
      g.pattern
      discard (g.optionalInitializer false)

def placeStep (g : Grammar) : Parser Unit := do
  if ← lookingAt "[" then
    symbol "["
    discard (g.sequence false)
    symbol "]"
  else
    operator "."
    discard (token privateNameLength? <|> word)

def patternRule (g : Grammar) : Parser Unit := do
  if (← nextOperator) == "..." then operator "..."
  if (← lookingAt "\x7b") || (← lookingAt "[") then g.destructuring
  else
    discard word
    discard (many g.bound g.placeStep)

def binding (g : Grammar) : Parser Lexeme :=
  extent do
    if (← lookingAt "\x7b") || (← lookingAt "[") then g.destructuring
    else discard word

def accessModifiers : List String :=
  ["public", "private", "protected", "override", "readonly"]

def parameter (g : Grammar) : Parser Unit := do
  if g.isTyped then
    discard g.decorators
    discard (g.modifiers accessModifiers [',', ')', '=', ':', '?'] false)
  g.pattern
  if g.isTyped && (← nextOperator) == "?" then operator "?"
  g.declaredType false
  discard (g.optionalInitializer false)

def parameters (g : Grammar) : Parser Unit := do
  symbol "("
  discard (g.separated ")" g.parameter)

def signature (g : Grammar) (breaks : Bool) : Parser Unit := do
  g.optionalTypeParameters
  g.parameters
  g.optionalResult breaks

end SchemaMigration.Source.Grammar
