import SchemaMigration.Config.Document
import SchemaMigration.Config.Error
import SchemaMigration.Disk.Walk
import SchemaMigration.Json.Printer
import SchemaMigration.Json.Reader

set_option autoImplicit false

namespace SchemaMigration.Config

def render (c : Config) : String :=
  c.toJson.pretty

def ofText? (text : String) : Option Config := do
  ofJson? (← Json.ofString? text)

def anchored (c : Config) (file : Path) : Config :=
  if c.projectRoot.isAbsolute then c
  else { c with projectRoot := (file.parent?.getD ⟨"."⟩).join c.projectRoot }

def load (d : Disk) (file : Path) : Except ConfigError Config :=
  match d.readText file with
  | .error cause => .error (.unreadable file cause)
  | .ok text =>
    match ofText? text with
    | some c => .ok (c.anchored file)
    | none => .error (.malformed file)

end SchemaMigration.Config
