import SchemaMigration.Artifact.Extension
import SchemaMigration.Field.Render

set_option autoImplicit false

namespace SchemaMigration

structure InterfaceImport where
  interface : String
  specifier : String
deriving DecidableEq, Repr

def specifierBetween (source target : Path) : String :=
  let directory := source.parent?.getD ⟨""⟩
  (target.withoutExtension.relativeTo directory).toSpecifier

namespace Field

def interfaceType (f : Field) : String :=
  match f.kind with
  | .attribute =>
    match f.type? with
    | some "string" => "string | null"
    | some "number" => "number | null"
    | some "boolean" => "boolean | null"
    | some "date" => "Date | null"
    | _ => "unknown"
  | .belongsTo => "unknown | null"
  | .hasMany => "unknown[]"
  | .fragment => "Record<string, unknown> | null"
  | .fragmentArray => "Record<string, unknown>[] | null"
  | .array => "unknown[] | null"

def interfaceLine (f : Field) : String :=
  "  " ++ renderKey f.name ++ ": " ++ f.interfaceType ++ ";\n"

end Field

def InterfaceImport.statement (i : InterfaceImport) : String :=
  "import type \x7b " ++ i.interface ++ " \x7d from " ++ Text.quote i.specifier ++ ";\n"

def interfaceSource (name : String) (fields : List Field) (parents : List InterfaceImport)
    (hasIdentity : Bool) : String :=
  let imports := String.join (parents.map InterfaceImport.statement)
  let gap := if parents.isEmpty then "" else "\n"
  let heritage :=
    if parents.isEmpty then ""
    else " extends " ++ ", ".intercalate (parents.map InterfaceImport.interface)
  let identity := if hasIdentity then "  readonly id: string | null;\n" else ""
  imports ++ gap ++ "export interface " ++ name ++ heritage ++ " \x7b\n" ++ identity
    ++ String.join (fields.map Field.interfaceLine) ++ "\x7d\n"

def resourceTypeSource (entity : String) (fields : List Field) (parents : List InterfaceImport) :
    String :=
  interfaceSource (resourceInterfaceName entity) fields parents true

def traitTypeSource (entity : String) (fields : List Field) (parents : List InterfaceImport) :
    String :=
  interfaceSource (traitInterfaceName entity) fields parents false

def extensionTypeSource (extensionExport : String) (shape : ExtensionShape) (specifier : String) :
    String :=
  let type :=
    match shape with
    | .classShape => extensionExport
    | .objectShape => "typeof " ++ extensionExport
  InterfaceImport.statement ⟨extensionExport, specifier⟩
    ++ "\nexport type " ++ extensionSignatureName extensionExport ++ " = " ++ type ++ ";\n"

end SchemaMigration
