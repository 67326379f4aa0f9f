import SchemaMigration.Source.Grammar.Function

set_option autoImplicit false

namespace SchemaMigration.Source.Grammar

open Source.Parser

def methodModifiers : List String :=
  ["static", "async", "get", "set"]

def modifierSlot : String → String
  | "public" | "private" | "protected" => "access"
  | "get" | "set" | "*" => "kind"
  | word => word

def areInOrder (orders : List (List String)) (words : List String) : Bool :=
  orders.any (words.map modifierSlot).isSublist

def methodOrder (g : Grammar) : List String :=
  if g.isTyped then ["access", "static", "override", "readonly", "async", "kind"]
  else ["static", "async", "kind"]

def methodStart (g : Grammar) (names : List String) (afterName : List Char) (breaks : Bool) :
    Parser (List String) := do
  let words ← g.modifiers names afterName breaks
  if ← lookingAt "*" then
    symbol "*"
    return words ++ ["*"]
  else return words

def namedMember (g : Grammar) : Parser (Lexeme → ObjectMember) := do
  discard g.decorators
  let start ← g.methodStart methodModifiers [':', ',', '(', '\x7d', '=', '<', '?'] false
  let key ← g.key
  if (← lookingAt "(") || (g.isTyped && ((← lookingAt "<") || (← lookingAt "?"))) then
    guard (areInOrder [g.methodOrder] start)
    if ← lookingAt "?" then symbol "?"
    g.signature false
    g.block false
    return (.method · key)
  else
    guard start.isEmpty
    if ← lookingAt ":" then
      symbol ":"
      let value ← g.expression false
      return (.pair · key value)
    else
      guard (key.form == .name)
      return .shorthand

def objectMember (g : Grammar) : Parser ObjectMember := do
  if (← nextOperator) == "..." then return .spread (← g.spread).lexeme
  else
    let (make, lexeme) ← located g.namedMember
    return make lexeme

def objectItem (g : Grammar) : Parser (Option (Option ObjectMember)) := do
  spaces
  match (← here).rest with
  | '\x7d' :: _ => return none
  | ',' :: _ =>
    skip 1
    return some none
  | rest =>
    if (commentLength? rest).isSome then return some (some (.comment (← comment)))
    else
      let member ← g.objectMember
      guard ((← lookingAt ",") || (← lookingAt "\x7d"))
      return some (some member)

def objectLiteral (g : Grammar) : Parser Expr := do
  let (members, lexeme) ← located do
    symbol "\x7b"
    let items ← repeatedly g.bound g.objectItem
    symbol "\x7d"
    return items.filterMap id
  return .object lexeme members

def arrayLiteral (g : Grammar) : Parser Expr := do
  let (items, lexeme) ← located do
    symbol "["
    g.separatedLoosely "]" (g.spread <|> g.expression false)
  return .array lexeme items

def parentheses (g : Grammar) : Parser Expr := do
  let (inner, lexeme) ← located do
    symbol "("
    -- A comment that stands first is taken for what the parentheses hold.
    let hidden ← lookahead comment
    let inner ← g.sequence false
    g.declaredType false
    symbol ")"
    return hidden.elim inner Expr.other
  return .parenthesized lexeme inner

end SchemaMigration.Source.Grammar
