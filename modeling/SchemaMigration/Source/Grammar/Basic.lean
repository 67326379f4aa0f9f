import SchemaMigration.Source.Cursor
import SchemaMigration.Source.Tree

set_option autoImplicit false

namespace SchemaMigration.Source

structure Grammar where
  language : Language
  bound : Nat
  -- An expression without commas; the flag says that a line break may end it.
  expression : Bool → Parser Expr
  heritage : Parser Expr
  pattern : Parser Unit
  typeExpression : Bool → Parser Unit
  statement : Parser Statement
  markup : Parser Unit

namespace Grammar

open Source.Parser

def isTyped (g : Grammar) : Bool :=
  g.language == .typeScript

def endRule (g : Grammar) (operator : Bool) : EndRule :=
  { language := g.language, operator }

def lineEnds (g : Grammar) (operator : Bool) : Parser Bool := do
  return ((g.endRule operator).endLength? [] (← here).rest).isSome

def endStatement (g : Grammar) (operator : Bool) : Parser Unit := do
  match (g.endRule operator).endLength? [';'] (← here).rest with
  | some n => skip n
  | none => failure

-- After a closing brace: takes in the comments that stand before an end of the line that needs no
-- semicolon.
def takeTrailing (g : Grammar) (operator : Bool) : Parser Unit := do
  match (g.endRule operator).endLength? [] (← here).rest with
  | some n => skip n
  -- No comment as in markup may follow on the line.
  | none => guard (markupCommentLength? (← ahead)).isNone

def separatedLoosely {α : Type} (g : Grammar) (close : String) (item : Parser α) :
    Parser (List α) := do
  let items ← repeatedly g.bound do
    if ← lookingAt close then return none
    else if ← lookingAt "," then
      symbol ","
      return some none
    else
      let value ← item
      guard ((← lookingAt ",") || (← lookingAt close))
      return some (some value)
  symbol close
  return items.filterMap id

def separated {α : Type} (g : Grammar) (close : String) (item : Parser α) : Parser (List α) := do
  let items ← repeatedly g.bound do
    if ← lookingAt close then return none
    else
      let value ← item
      if ← lookingAt "," then symbol "," else guard (← lookingAt close)
      return some value
  symbol close
  return items

-- A list of names may also hold a comma and nothing else.
def separatedNames {α : Type} (g : Grammar) (close : String) (item : Parser α) :
    Parser (List α) :=
  g.separated close item <|> do
    symbol ","
    symbol close
    return []

def sequence (g : Grammar) (breaks : Bool) : Parser Expr := do
  let ((first, more), lexeme) ← located do
    let first ← g.expression breaks
    let more ← many g.bound do
      symbol ","
      g.expression breaks
    return (first, more)
  return if more.isEmpty then first else .other lexeme

def key (g : Grammar) : Parser Key := do
  match (← ahead).head? with
  | some '[' =>
    let lexeme ← extent do
      symbol "["
      discard (g.expression false)
      symbol "]"
    return ⟨.computed, lexeme⟩
  | some '#' => return ⟨.privateName, ← token privateNameLength?⟩
  | some '\'' | some '"' => return ⟨.string, ← token stringLength?⟩
  | some c =>
    if c.isDigit || c == '.' then return ⟨.number, ← token numberLength?⟩
    else return ⟨.name, ← word⟩
  | none => failure

def isModifier (g : Grammar) (names : List String) (afterName : List Char) (breaks : Bool) :
    Parser Bool := do
  let cursor ← here
  let word := cursor.word
  let after := cursor.skip (triviaLength cursor.rest + word.length)
  -- After a name comes one of the characters or, where line breaks count, the end of the member.
  return names.contains word && !(after.ahead.head?.all afterName.contains)
    && !(breaks && ((g.endRule false).endLength? [] after.rest).isSome)

def modifiers (g : Grammar) (names : List String) (afterName : List Char) (breaks : Bool) :
    Parser (List String) :=
  repeatedly g.bound do
    if ← g.isModifier names afterName breaks then return some (← word).text
    else return none

end Grammar

end SchemaMigration.Source
