import SchemaMigration.Path.Basic

set_option autoImplicit false

namespace SchemaMigration

inductive Language where
  | javaScript
  | typeScript
deriving DecidableEq, Repr, Inhabited

namespace Language

def name : Language → String
  | .javaScript => "javascript"
  | .typeScript => "typescript"

def extension : Language → String
  | .javaScript => ".js"
  | .typeScript => ".ts"

def ofPath? (p : Path) : Option Language := do
  let name ← p.fileName?
  if ".d.ts".toList.isSuffixOf name.toList then none
  else
    match ← p.extension? with
    | "js" | "mjs" => some .javaScript
    | "ts" | "mts" => some .typeScript
    | _ => none

end Language

end SchemaMigration
