import SchemaMigration.Source.Grammar.Object

set_option autoImplicit false

namespace SchemaMigration.Source.Grammar

open Source.Parser

def afterMemberName : List Char :=
  ['(', '=', ';', ',', ':', '?', '!', '<', '\x7d']

def memberModifiers (g : Grammar) : List String :=
  if g.isTyped then
    methodModifiers ++ accessModifiers ++ ["declare", "abstract", "accessor"]
  else methodModifiers

def fieldOrders (g : Grammar) : List (List String) :=
  if g.isTyped then
    let back := [["static", "override", "readonly"], ["abstract", "readonly"],
      ["readonly", "abstract"], ["accessor"]]
    back.map (["declare", "access"] ++ ·) ++ back.map (["access", "declare"] ++ ·)
  else [["static"]]

def abstractOrder : List String :=
  ["access", "abstract", "override", "kind"]

def guardMemberEnd (g : Grammar) (operator signature : Bool) : Parser Unit := do
  let rule : EndRule := { language := g.language, operator, signature }
  let written := if g.isTyped then [';', ','] else [';']
  guard (rule.endLength? written (← here).rest).isSome

def fieldRest (g : Grammar) : Parser Unit := do
  if g.isTyped && ((← nextOperator) == "?" || (← nextOperator) == "!") then
    operator (← nextOperator)
  g.declaredType true
  let value ← g.optionalInitializer true
  g.guardMemberEnd value.isSome false

def classNamedMember (g : Grammar) (decorators : List Decorator) :
    Parser (Lexeme → ClassMember) := do
  let start ← g.methodStart g.memberModifiers afterMemberName true
  let key ← g.key
  let isMethod ← follows do
    discard (optionally (guard g.isTyped *> operator "?"))
    symbol "(" <|> (guard g.isTyped *> symbol "<")
  if isMethod then
    if ← lookingAt "?" then symbol "?"
    g.signature true
    if (← lookingAt "\x7b") && !start.contains "abstract" then
      guard (areInOrder [g.methodOrder] start)
      g.block false
      return (.method · key)
    else
      guard (g.isTyped && areInOrder [g.methodOrder, abstractOrder] start)
      g.guardMemberEnd false true
      return (.signature · key.lexeme)
  else
    guard (areInOrder g.fieldOrders start)
    g.fieldRest
    return (.field · key decorators)

def staticBlock (g : Grammar) : Parser (Lexeme → ClassMember) := do
  keyword "static"
  g.block false
  return .staticBlock

def classIndexSignature (g : Grammar) : Parser (Lexeme → ClassMember) := do
  guard g.isTyped
  let name ← g.indexSignature true
  g.guardMemberEnd false false
  return (.signature · name)

def classMember (g : Grammar) : Parser ClassMember := do
  let (make, lexeme) ← located do
    let decorators ← g.decorators
    -- With types, decorators may stand in front of nothing.
    if g.isTyped && !decorators.isEmpty && ((← lookingAt "\x7d") || (← lookingAt ";")) then
      return .decorators
    else
      (guard (g.isTyped || decorators.isEmpty) *> g.staticBlock)
        <|> g.classIndexSignature <|> g.classNamedMember decorators
  return make lexeme

inductive ClassPiece where
  | member (member : ClassMember)
  | semicolon
  | comma

namespace ClassPiece

def member? : ClassPiece → Option ClassMember
  | .member m => some m
  | .semicolon | .comma => none

-- Whether each comma ends a field or signature; the flag says that one could end here.
def areCommasPlaced : Bool → List ClassPiece → Bool
  | _, [] => true
  | isOpen, .comma :: rest => isOpen && areCommasPlaced false rest
  | _, .semicolon :: rest => areCommasPlaced false rest
  | isOpen, .member (.comment _) :: rest => areCommasPlaced isOpen rest
  | _, .member (.field ..) :: rest | _, .member (.signature ..) :: rest =>
    areCommasPlaced true rest
  | _, .member _ :: rest => areCommasPlaced false rest

end ClassPiece

def classItem (g : Grammar) : Parser (Option ClassPiece) := do
  spaces
  match (← here).rest with
  | '\x7d' :: _ => return none
  | ';' :: _ =>
    skip 1
    return some .semicolon
  | rest =>
    if g.isTyped && rest.head? == some ',' then
      skip 1
      return some .comma
    else if (commentLength? rest).isSome then return some (.member (.comment (← comment)))
    else return some (.member (← g.classMember))

def classBody (g : Grammar) : Parser (List ClassMember) := do
  symbol "\x7b"
  let items ← repeatedly g.bound g.classItem
  guard (ClassPiece.areCommasPlaced false items)
  symbol "\x7d"
  return items.filterMap ClassPiece.member?

def implementsClause (g : Grammar) : Parser Unit := do
  if g.isTyped && (← nextWord) == "implements" then
    keyword "implements"
    g.typeExpression false
    discard <| many g.bound do
      symbol ","
      g.typeExpression false

def extendsClause (g : Grammar) : Parser (Option Expr) := do
  if (← nextWord) == "extends" then
    keyword "extends"
    let value ← g.heritage
    if g.isTyped then
      if ← lookingAt "<" then g.typeArguments
      discard <| many g.bound do
        symbol ","
        discard g.heritage
        if ← lookingAt "<" then g.typeArguments
    return some value
  else return none

def classRest (g : Grammar) (named : Bool) : Parser ClassDefinition := do
  keyword "class"
  let word ← nextWord
  let isName := word != "" && word != "extends" && !(g.isTyped && word == "implements")
  let name ← if named || isName then some <$> Parser.word else pure none
  g.optionalTypeParameters
  let value ← g.extendsClause
  g.implementsClause
  return .mk name value (← g.classBody)

end SchemaMigration.Source.Grammar
