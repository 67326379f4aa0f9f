import SchemaMigration.Field.Literal
import SchemaMigration.Text.Identifier
import SchemaMigration.Text.Quoted

set_option autoImplicit false

namespace SchemaMigration

def indent (depth : Nat) : String :=
  String.join (List.replicate depth "  ")

def renderKey (key : String) : String :=
  if Text.isIdentifier key then key else Text.quote key

def renderLines (opening closing : String) (depth : Nat) (lines : List String) : String :=
  let entry line := indent (depth + 1) ++ line ++ ",\n"
  opening ++ "\n" ++ String.join (lines.map entry) ++ indent depth ++ closing

namespace Literal

mutual

def render : Literal → Nat → String
  | .null, _ => "null"
  | .bool value, _ => if value then "true" else "false"
  | .number text, _ => text
  | .string contents, _ => Text.quote contents
  | .raw text, _ => text
  | .array items, depth =>
    if items.isEmpty then "[]"
    else if items.any isNested then renderLines "[" "]" depth (renderItems items (depth + 1))
    else "[" ++ ", ".intercalate (renderItems items depth) ++ "]"
  | .object entries, depth =>
    if entries.isEmpty then "\x7b\x7d"
    else renderLines "\x7b" "\x7d" depth (renderEntries entries (depth + 1))

def renderItems : List Literal → Nat → List String
  | [], _ => []
  | item :: rest, depth => item.render depth :: renderItems rest depth

def renderEntries : List (String × Literal) → Nat → List String
  | [], _ => []
  | (key, value) :: rest, depth =>
    (renderKey key ++ ": " ++ value.render depth) :: renderEntries rest depth

end

end Literal

namespace FieldOptions

def toLiteral (o : FieldOptions) : Literal := .object o.entries

def render (o : FieldOptions) (depth : Nat) : String := o.toLiteral.render depth

end FieldOptions

end SchemaMigration
