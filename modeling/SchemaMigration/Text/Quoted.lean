set_option autoImplicit false

namespace SchemaMigration.Text

def isQuote (c : Char) : Bool :=
  c == '\'' || c == '"' || c == '\x60'

def unquoteChars : List Char → List Char
  | [] => []
  | q :: rest => if isQuote q && rest.getLast? == some q then rest.dropLast else q :: rest

def unquote (literal : String) : String :=
  String.ofList (unquoteChars literal.toList)

@[simp] theorem unquoteChars_quoted (q : Char) (contents : List Char) (quote : isQuote q = true) :
    unquoteChars (q :: (contents ++ [q])) = contents := by
  simp [unquoteChars, quote]

def escapeQuotes : Bool → List Char → List Char
  | _, [] => []
  | escaped, c :: rest =>
    let later := c :: escapeQuotes (c == '\\' && !escaped) rest
    if c == '\'' && !escaped then '\\' :: later else later

-- A literal for contents whose escapes are left as written: single quotes unless the contents hold
-- one, else double quotes, and with both kinds inside single quotes with escapes.
def quoteChars (contents : List Char) : List Char :=
  if !contents.contains '\'' then '\'' :: (contents ++ ['\''])
  else if !contents.contains '"' then '"' :: (contents ++ ['"'])
  else '\'' :: (escapeQuotes false contents ++ ['\''])

def quote (contents : String) : String :=
  String.ofList (quoteChars contents.toList)

end SchemaMigration.Text
