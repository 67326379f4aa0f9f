import SchemaMigration.Character.Basic

set_option autoImplicit false

namespace SchemaMigration.Naming

open Character

def isPartSeparator (c : Char) : Bool :=
  c == '-' || c == '_' || c == '/' || c == '.' || c == ' '

-- Capitalises the first character after a separator and drops the separators. The flag says that a
-- part has begun.
def pascalFrom : Bool → List Char → List Char
  | _, [] => []
  | inside, c :: rest =>
    if isPartSeparator c then pascalFrom false rest
    else if inside then c :: pascalFrom true rest
    else upper c ++ pascalFrom true rest

def pascalCase (input : String) : String :=
  String.ofList (pascalFrom false input.toList)

end SchemaMigration.Naming
