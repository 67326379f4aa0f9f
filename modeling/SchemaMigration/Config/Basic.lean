import SchemaMigration.Path.Lexical
import SchemaMigration.Specifier.Relocation

set_option autoImplicit false

namespace SchemaMigration

-- Specifiers that match a pattern lie in a directory. Both may hold one star, and what the star of
-- the pattern stands for takes the place of the one of the directory.
structure PathMapping where
  pattern : String
  directory : Path

structure SourceConfig where
  importAlias : Option String := none
  directory : Option Path := none
  additional : List PathMapping := []

structure OutputConfig where
  resourcesDir : Option Path := none
  traitsDir : Option Path := none
  extensionsDir : Option Path := none

def defaultExtensions : List String := [".js", ".ts"]

structure Config where
  projectRoot : Path := ⟨"."⟩
  extensions : List String := defaultExtensions
  models : SourceConfig := {}
  mixins : SourceConfig := {}
  output : OutputConfig := {}
  importMappings : List ImportMapping := []
  intermediateModels : List String := []
  exclude : List String := []
  dryRun : Bool := false

namespace Config

def conventional (projectRoot : Path) : Config where
  projectRoot
  models := { directory := some ⟨"app/models"⟩ }
  mixins := { directory := some ⟨"app/mixins"⟩ }

end Config

end SchemaMigration
