import SchemaMigration.Naming.Dasherize
import SchemaMigration.Naming.PascalCase
import SchemaMigration.Path.Lexical

set_option autoImplicit false

namespace SchemaMigration

open Naming

namespace Path

def deepest? (directories : List Path) : Option Path :=
  directories.foldl (fun best d =>
    match best with
    | none => some d
    | some b => if b.depth ≤ d.depth then some d else some b) none

def deepestRoot? (p : Path) (roots : List Path) : Option Path :=
  deepest? (roots.filter p.startsWith)

def dasherized (p : Path) : String :=
  "/".intercalate (p.components.map fun step => dasherize step.text)

end Path

def entityName (p : Path) (roots : List Path) (extensions : List String) : String :=
  let stripped := p.stripExtension extensions
  let nested := (stripped.deepestRoot? roots).bind fun root =>
    (stripped.below? root).map Path.dasherized
  match nested with
  | some name => if name.isEmpty then bareName stripped else name
  | none => bareName stripped
where
  bareName (stripped : Path) : String :=
    (stripped.fileName?.map dasherize).getD ""

def resourceInterfaceName (entity : String) : String :=
  pascalCase entity

def traitInterfaceName (entity : String) : String :=
  pascalCase entity ++ "Trait"

def schemaConstantName (entity : String) : String :=
  pascalCase entity ++ "Schema"

def traitConstantName (entity : String) : String :=
  pascalCase entity ++ "Trait"

def extensionExportName (entity : String) : String :=
  pascalCase entity ++ "Extension"

def extensionSignatureName (extensionExport : String) : String :=
  extensionExport ++ "Signature"

end SchemaMigration
