import SchemaMigration.Source.Grammar.Basic

set_option autoImplicit false

namespace SchemaMigration.Source.Grammar

open Source.Parser

def markupNameLength? (s : List Char) : Option Nat :=
  match nameLength? s with
  | none => none
  | some _ => some (s.takeWhile fun c => isNameChar c || c == '-').length

def markupName (g : Grammar) : Parser Unit := do
  discard (token markupNameLength?)
  discard <| many g.bound do
    symbol "." <|> symbol ":"
    discard (token markupNameLength?)

def markupBraces (g : Grammar) : Parser Unit := do
  symbol "\x7b"
  if (← nextOperator) == "..." then operator "..."
  if !(← lookingAt "\x7d") then discard (g.sequence false)
  symbol "\x7d"

def markupStringLength? : List Char → Option Nat
  | [] => none
  | q :: rest =>
    let n := (rest.takeWhile (· != q)).length
    if (q == '\'' || q == '"') && n < rest.length then some (n + 2) else none

def markupAttribute (g : Grammar) : Parser Unit := do
  if ← lookingAt "\x7b" then g.markupBraces
  else
    g.markupName
    if ← lookingAt "=" then
      symbol "="
      if ← lookingAt "\x7b" then g.markupBraces
      else if ← lookingAt "<" then g.markup
      else discard (token markupStringLength?)

def markupChild (g : Grammar) : Parser (Option Unit) := do
  let rest := (← here).rest
  if "</".toList.isPrefixOf rest then return none
  else
    match rest.head? with
    | none => failure
    | some '\x7b' => some <$> g.markupBraces
    | some '<' => some <$> g.markup
    | some c =>
      guard (c != '>' && c != '\x7d')
      skip 1
      return some ()

def markupRule (g : Grammar) : Parser Unit := do
  symbol "<"
  if !(← lookingAt ">") then
    g.markupName
    discard <| repeatedly g.bound do
      if (← lookingAt ">") || (← lookingAt "/") then return none
      else return some (← g.markupAttribute)
  if ← lookingAt "/" then
    symbol "/"
    symbol ">"
  else
    symbol ">"
    discard (repeatedly g.bound g.markupChild)
    skip 2
    if !(← lookingAt ">") then g.markupName
    symbol ">"

end SchemaMigration.Source.Grammar
