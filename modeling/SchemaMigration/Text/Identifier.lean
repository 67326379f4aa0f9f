import SchemaMigration.Character.Basic

set_option autoImplicit false

namespace SchemaMigration.Text

open Character

def isIdentifier (text : String) : Bool :=
  match text.toList with
  | [] => false
  | c :: rest => (isAlphabetic c || c == '_' || c == '$') && rest.all isIdentifierChar

def isBoundary : Option Char → Bool
  | none => true
  | some c => !isIdentifierChar c

-- Searches for an occurrence between two boundaries. The first argument after the identifier is how
-- many characters of a rejected occurrence are still to be passed.
def occursWholeFrom (ident : List Char) : Nat → Option Char → List Char → Bool
  | _, _, [] => false
  | skip + 1, _, c :: rest => occursWholeFrom ident skip (some c) rest
  | 0, before, c :: rest =>
    if ident.isPrefixOf (c :: rest) then
      (isBoundary before && isBoundary ((c :: rest).drop ident.length).head?)
        || occursWholeFrom ident (ident.length - 1) (some c) rest
    else occursWholeFrom ident 0 (some c) rest

def containsIdentifier (text ident : String) : Bool :=
  !ident.isEmpty && occursWholeFrom ident.toList 0 none text.toList

end SchemaMigration.Text
