import SchemaMigration.Character.Alphabetic
import SchemaMigration.Character.Blank
import SchemaMigration.Character.CaseMaps
import SchemaMigration.Character.Lowercase
import SchemaMigration.Character.Numeric
import SchemaMigration.Character.Uppercase

set_option autoImplicit false

namespace SchemaMigration.Character

def isUpper (c : Char) : Bool := uppercase.contains c

def isLower (c : Char) : Bool := lowercase.contains c

def isAlphabetic (c : Char) : Bool := alphabetic.contains c

def isNumeric (c : Char) : Bool := numeric.contains c

def isAlphanumeric (c : Char) : Bool := isAlphabetic c || isNumeric c

def isBlank (c : Char) : Bool := blank.contains c

def upper (c : Char) : List Char := toUpperCase.map c

def lower (c : Char) : List Char := toLowerCase.map c

def isIdentifierChar (c : Char) : Bool :=
  isAlphanumeric c || c == '_' || c == '$'

def trim (s : List Char) : List Char :=
  ((s.dropWhile isBlank).reverse.dropWhile isBlank).reverse

end SchemaMigration.Character
