import SchemaMigration.Character.Basic

set_option autoImplicit false

namespace SchemaMigration.Naming

open Character

def isWordSeparator (c : Char) : Bool :=
  c == '_' || c == ' ' || c == '-'

-- An upper-case character starts a word after a lower-case one or a digit, and after an upper-case
-- one when a lower-case one follows.
def startsWord (previous next : Option Char) : Bool :=
  match previous with
  | none => false
  | some p => isLower p || p.isDigit || (isUpper p && next.any isLower)

def addDash : List Char → List Char
  | [] => []
  | c :: out => if c == '-' then c :: out else '-' :: c :: out

def addBoundary : List Char → List Char
  | [] => []
  | c :: out => if c == '-' || c == '/' then c :: out else '-' :: c :: out

def dashFrom (out : List Char) (previous : Option Char) : List Char → List Char
  | [] => out
  | c :: rest =>
    let out :=
      if isWordSeparator c then addDash out
      else if isUpper c then
        (lower c).reverse ++ (if startsWord previous rest.head? then addBoundary out else out)
      else c :: out
    dashFrom out (some c) rest

def trimDashes (out : List Char) : List Char :=
  (out.dropWhile (· == '-')).reverse.dropWhile (· == '-')

def dashChars (input : List Char) : List Char :=
  trimDashes (dashFrom [] none input)

def dasherize (input : String) : String :=
  String.ofList (dashChars input.toList)

end SchemaMigration.Naming
