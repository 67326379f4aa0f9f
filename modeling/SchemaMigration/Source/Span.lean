import SchemaMigration.Text.Bytes

set_option autoImplicit false

namespace SchemaMigration

structure Span where
  start : Nat
  stop : Nat
deriving DecidableEq, Repr, Inhabited

def Span.slice? (span : Span) (source : List Char) : Option (List Char) :=
  Text.slice? source span.start span.stop

structure Lexeme where
  span : Span
  text : String
deriving DecidableEq, Repr, Inhabited

end SchemaMigration
