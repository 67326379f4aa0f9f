import SchemaMigration.Source.Tree

set_option autoImplicit false

namespace SchemaMigration

open Source

structure Heritage where
  base : Option String
  mixins : List String
deriving DecidableEq, Repr

def identifiers (arguments : List Expr) : List String :=
  arguments.filterMap fun
    | .identifier lexeme => some lexeme.text
    | _ => none

def leftmostName? : Expr → Option String
  | .identifier lexeme => some lexeme.text
  | .access _ object _ => leftmostName? object
  | .call _ callee _ => leftmostName? callee
  | .parenthesized _ inner => leftmostName? inner
  | _ => none

namespace Heritage

def ofExpr : Expr → Heritage
  | .call lexeme (.access place object property) arguments =>
    if property.text == "extend" then
      let inner := ofExpr object
      { inner with mixins := inner.mixins ++ identifiers arguments }
    else ⟨leftmostName? (.call lexeme (.access place object property) arguments), []⟩
  | .parenthesized _ inner => ofExpr inner
  | e => ⟨leftmostName? e, []⟩

end Heritage

end SchemaMigration
