import SchemaMigration.Source.Grammar.Statement

set_option autoImplicit false

namespace SchemaMigration.Source

namespace Grammar

def nested (language : Language) (bound : Nat) : Nat → Grammar
  | 0 =>
    { language
      bound
      expression := fun _ => failure
      heritage := failure
      pattern := failure
      typeExpression := fun _ => failure
      statement := failure
      markup := failure }
  | depth + 1 =>
    let inner := nested language bound depth
    { language
      bound
      expression := inner.expressionRule
      heritage := inner.heritageRule
      pattern := inner.patternRule
      typeExpression := inner.typeRule
      statement := inner.statementRule
      markup := inner.markupRule }

end Grammar

open Source.Parser

def interpreterLine : Parser Statement := do
  let rest ← ahead
  guard ("#!".toList.isPrefixOf rest)
  return .other (← token fun s => some (s.takeWhile (· != '\n')).length)

def program (g : Grammar) : Parser (List Statement) := do
  let first ← optionally interpreterLine
  let statements ← repeatedly g.bound do
    if (← ahead).isEmpty then return none else return some (← g.statement)
  return first.toList ++ statements

def readStatements? (language : Language) (source : String) : Option (List Statement) :=
  let bound := source.length + 16
  ((program (Grammar.nested language bound bound)).run ⟨source.toList, 0⟩).map Prod.fst

end SchemaMigration.Source
