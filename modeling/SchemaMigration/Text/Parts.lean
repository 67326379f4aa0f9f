set_option autoImplicit false

namespace SchemaMigration.Text

def splitAtStar? (s : List Char) : Option (List Char × List Char) :=
  match s.span (· != '*') with
  | (_, []) => none
  | (before, _ :: after) => some (before, after)

def trimSlashes (s : List Char) : List Char :=
  (s.reverse.dropWhile (· == '/')).reverse

end SchemaMigration.Text
