import SchemaMigration.Source.Tree
import SchemaMigration.Text.Quoted

set_option autoImplicit false

namespace SchemaMigration

open Source

structure Import where
  specifier : String
  isTypeOnly : Bool
  bindings : List ImportBinding
  statement : Span
  specifierSpan : Span
deriving Repr

namespace Import

def isSideEffect (i : Import) : Bool :=
  i.bindings.isEmpty

def locals (i : Import) : List String :=
  i.bindings.map ImportBinding.localName

def ofClause (statement : Span) (clause : ImportClause) : Import where
  specifier := Text.unquote clause.specifier.text
  -- A statement with nothing but types in its braces counts as marked.
  isTypeOnly := clause.isTypeOnly
    || (!clause.bindings.isEmpty && clause.bindings.all ImportBinding.isTypeOnly)
  bindings := clause.bindings.map fun b =>
    if clause.isTypeOnly then { b with isTypeOnly := true } else b
  statement
  specifierSpan := ⟨clause.specifier.span.start + 1, clause.specifier.span.stop - 1⟩

def ofStatement? : Statement → Option Import
  | .importFrom lexeme clause => some (ofClause lexeme.span clause)
  | _ => none

def findBinding? (imports : List Import) (name : String) : Option (Import × ImportBinding) :=
  imports.findSome? fun i => (i.bindings.find? (·.localName == name)).map (i, ·)

end Import

end SchemaMigration
