set_option autoImplicit false

namespace SchemaMigration

inductive ArtifactKind where
  | schema
  | trait
  | resourceExtension
  | traitExtension
  | resourceType
  | traitType
  | extensionType
  | other
deriving DecidableEq, Repr

inductive OutputDirectory where
  | resources
  | traits
  | extensions
deriving DecidableEq, Repr

structure PlacementPolicy where
  directory : OutputDirectory
  defaultDirectory : String
  keepsPlace : Bool := false
  suffix : String := ""
  keepsExtension : Bool := true
  isNamed : Bool := false

namespace ArtifactKind

def name : ArtifactKind → String
  | .schema => "schema"
  | .trait => "trait"
  | .resourceExtension => "resource-extension"
  | .traitExtension => "trait-extension"
  | .resourceType => "resource-type"
  | .traitType => "trait-type"
  | .extensionType => "extension-type"
  | .other => "other"

def policy : ArtifactKind → PlacementPolicy
  | .schema =>
    { directory := .resources
      defaultDirectory := "app/data/resources"
      suffix := ".schema" }
  | .trait =>
    { directory := .traits
      defaultDirectory := "app/data/traits"
      keepsPlace := true
      suffix := ".schema" }
  | .resourceExtension =>
    { directory := .extensions
      defaultDirectory := "app/data/resources"
      suffix := ".ext" }
  | .traitExtension =>
    { directory := .extensions
      defaultDirectory := "app/data/traits"
      keepsPlace := true
      suffix := ".ext" }
  | .resourceType =>
    { directory := .resources
      defaultDirectory := "app/data/resources"
      suffix := ".schema.types"
      keepsExtension := false }
  | .traitType =>
    { directory := .traits
      defaultDirectory := "app/data/traits"
      keepsPlace := true
      suffix := ".schema.types"
      keepsExtension := false }
  | .extensionType =>
    { directory := .extensions
      defaultDirectory := "app/data/resources"
      isNamed := true }
  | .other =>
    { directory := .resources
      defaultDirectory := "app/data/resources"
      isNamed := true }

end ArtifactKind

end SchemaMigration
