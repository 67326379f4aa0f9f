import SchemaMigration.Field.Literal
import SchemaMigration.Source.Tree
import SchemaMigration.Text.Quoted

set_option autoImplicit false

namespace SchemaMigration

open Source

def isPlainTemplate : List Char → Bool
  | '$' :: '\x7b' :: _ => false
  | _ :: rest => isPlainTemplate rest
  | [] => true

def plainString? : Expr → Option String
  | .string lexeme => some (Text.unquote lexeme.text)
  | .template lexeme =>
    if isPlainTemplate lexeme.text.toList then some (Text.unquote lexeme.text) else none
  | _ => none

def optionName? (key : Key) : Option String :=
  match key.form with
  | .name | .number => some key.lexeme.text
  | .string => some (Text.unquote key.lexeme.text)
  | .privateName | .computed => none

namespace Literal

mutual

def ofExpr : Expr → Literal
  | .null _ => .null
  | .boolean _ value => .bool value
  | .number lexeme => .number lexeme.text
  | .string lexeme => .string (Text.unquote lexeme.text)
  | .template lexeme =>
    if isPlainTemplate lexeme.text.toList then .string (Text.unquote lexeme.text)
    else .raw lexeme.text
  | .array _ items => .array (ofExprs items)
  | .object lexeme members =>
    match entriesOf? members with
    | some entries => .object (FieldOptions.ofList entries).entries
    | none => .raw lexeme.text
  | .parenthesized _ inner => ofExpr inner
  | .identifier lexeme | .call lexeme _ _ | .access lexeme _ _ | .classLiteral lexeme _
  | .target lexeme | .other lexeme => .raw lexeme.text

def ofExprs : List Expr → List Literal
  | [] => []
  | e :: rest => ofExpr e :: ofExprs rest

def entriesOf? : List ObjectMember → Option (List (String × Literal))
  | [] => some []
  | .comment _ :: rest => entriesOf? rest
  | .pair _ key value :: rest =>
    match optionName? key, entriesOf? rest with
    | some name, some entries => some ((name, ofExpr value) :: entries)
    | _, _ => none
  | .method .. :: _ | .shorthand _ :: _ | .spread _ :: _ => none

end

end Literal

end SchemaMigration
