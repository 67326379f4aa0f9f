import SchemaMigration.Source.Grammar.Object
import SchemaMigration.Text.Quoted

set_option autoImplicit false

namespace SchemaMigration.Source.Grammar

open Source.Parser

def moduleName : Parser Lexeme :=
  token stringLength? <|> word

def importedName (name : String) : ImportedName :=
  if name == "default" then .defaultExport else .named name

def importedBinding (isTypeOnly : Bool) : Parser ImportBinding := do
  let name ← moduleName
  let imported := Text.unquote name.text
  let binding : ImportBinding ←
    if (← nextWord) == "as" then
      keyword "as"
      let given ← word
      pure { localName := given.text, imported := importedName imported, isTypeOnly }
    else
      guard (imported == name.text)
      pure { localName := imported, imported := importedName imported, isTypeOnly }
  guard ((← lookingAt ",") || (← lookingAt "\x7d"))
  return binding

def importSpecifier (g : Grammar) : Parser ImportBinding :=
  -- Tried first, so that `type` marks a type only where it cannot be the name itself.
  importedBinding false
  <|> (do
    guard g.isTyped
    keyword "type"
    importedBinding true)
  <|> (do
    guard g.isTyped
    keyword "typeof"
    importedBinding false)

def namedImports (g : Grammar) : Parser (List ImportBinding) := do
  symbol "\x7b"
  g.separatedNames "\x7d" g.importSpecifier

def namespaceImport : Parser (List ImportBinding) := do
  symbol "*"
  keyword "as"
  let name ← word
  return [{ localName := name.text, imported := .wholeModule, isTypeOnly := false }]

def importBindings (g : Grammar) : Parser (List ImportBinding) := do
  if (← lookingAt "\x7b") || (← lookingAt "*") then g.namedImports <|> namespaceImport
  else
    let name ← word
    let more ←
      if ← lookingAt "," then symbol "," *> (g.namedImports <|> namespaceImport) else pure []
    return { localName := name.text, imported := .defaultExport, isTypeOnly := false } :: more

def importClause (g : Grammar) (isTypeOnly : Bool) : Parser ImportClause := do
  let bindings ←
    if (← lookingAt "'") || (← lookingAt "\"") then pure []
    else
      let bindings ← g.importBindings
      keyword "from"
      pure bindings
  let specifier ← token stringLength?
  discard <| optionally do
    keyword "with" <|> (guard g.isTyped *> keyword "assert")
    discard g.objectLiteral
  g.endStatement false
  return { isTypeOnly, bindings, specifier }

def typeMark (g : Grammar) : Parser Bool := do
  guard g.isTyped
  let name ← word
  guard (name.text == "type" || name.text == "typeof")
  return name.text == "type"

def requiredModule (g : Grammar) : Parser Unit := do
  guard g.isTyped
  discard word
  operator "="
  keyword "require"
  symbol "("
  discard (token stringLength?)
  symbol ")"
  g.endStatement false

def importAlias (g : Grammar) : Parser Unit := do
  guard g.isTyped
  discard word
  operator "="
  discard word
  discard <| many g.bound do
    operator "."
    discard word
  g.endStatement false

def importStatement (g : Grammar) : Parser Statement := do
  let (make, lexeme) ← located do
    keyword "import"
    (do
      let clause ← g.importClause false
      return (Statement.importFrom · clause))
    <|> (do
      let isTypeOnly ← g.typeMark
      let clause ← g.importClause isTypeOnly
      return (Statement.importFrom · clause))
    <|> (do
      discard (optionally (g.typeMark *> follows g.requiredModule >>= fun ok => guard ok))
      g.requiredModule
      return Statement.importOther)
    <|> (do
      g.importAlias
      return Statement.other)
  return make lexeme

end SchemaMigration.Source.Grammar
