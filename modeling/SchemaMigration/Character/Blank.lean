import SchemaMigration.Character.Table

set_option autoImplicit false

namespace SchemaMigration.Character

def blank : CharSet where
  changes := [
    9, 14, 32, 33, 133, 134, 160, 161, 5760, 5761, 8192, 8203, 8232, 8234, 8239, 8240, 8287,
    8288, 12288, 12289]

end SchemaMigration.Character
