import SchemaMigration.Disk.Basic
import SchemaMigration.Glob.Reader

set_option autoImplicit false

namespace SchemaMigration

inductive ConfigError where
  | unreadable (file : Path) (cause : DiskError)
  | malformed (file : Path)
  | rootNotAccessible (root : Path) (cause : DiskError)
  | noSources
  | manyWildcards (pattern : String)
  | invalidExclude (pattern : String) (fault : Glob.Fault)

def ConfigError.reason : ConfigError → String
  | .unreadable file cause => s!"cannot read {file.text}: {cause.message}"
  | .malformed file => s!"cannot parse {file.text}"
  | .rootNotAccessible root cause =>
    s!"project root {root.text} is not accessible: {cause.message}"
  | .noSources => "no model or mixin source directory configured"
  | .manyWildcards pattern => s!"pattern '{pattern}' has more than one wildcard"
  | .invalidExclude pattern fault =>
    s!"invalid exclude pattern '{pattern}': error parsing glob '{pattern}': {fault.message}"

def ConfigError.message (e : ConfigError) : String :=
  "invalid configuration: " ++ e.reason

end SchemaMigration
