import SchemaMigration.Config.Basic
import SchemaMigration.Json.Basic

set_option autoImplicit false

namespace SchemaMigration

namespace Json

def fieldsOf? (entries : List (String × Json)) : List String → Option (List (Option Json))
  | [] => some []
  | name :: rest =>
    match entries.filter (·.1 == name) with
    | [] => (fieldsOf? entries rest).map (none :: ·)
    | [(_, value)] => (fieldsOf? entries rest).map (some value :: ·)
    | _ => none

def itemsOf? : List Json → List String → Option (List (Option Json))
  | [], names => some (names.map fun _ => none)
  | _ :: _, [] => none
  | item :: items, _ :: names => (itemsOf? items names).map (some item :: ·)

def record? (names : List String) : Json → Option (List (Option Json))
  | .object entries => fieldsOf? entries names
  | .array items => itemsOf? items names
  | _ => none

def list? {α : Type} (read : Json → Option α) : Json → Option (List α)
  | .array items => items.mapM read
  | _ => none

def nullable? {α : Type} (read : Json → Option α) : Json → Option (Option α)
  | .null => some none
  | j => (read j).map some

def orDefault {α : Type} (default : α) (read : Json → Option α) : Option Json → Option α
  | none => some default
  | some j => read j

def path? (j : Json) : Option Path :=
  j.asString?.map Path.ofString

def ofPath (p : Path) : Json := .string p.text

end Json

open Json

namespace PathMapping

def keys : List String := ["pattern", "directory"]

def ofJson? (j : Json) : Option PathMapping := do
  match ← record? keys j with
  | [some pattern, some directory] =>
    return { pattern := ← pattern.asString?, directory := ← path? directory }
  | _ => none

def toJson (m : PathMapping) : Json :=
  .object [("pattern", .string m.pattern), ("directory", ofPath m.directory)]

end PathMapping

namespace ImportMapping

def keys : List String := ["directory", "importBase"]

def ofJson? (j : Json) : Option ImportMapping := do
  match ← record? keys j with
  | [some directory, some importBase] =>
    return { directory := ← directory.asString?, importBase := ← importBase.asString? }
  | _ => none

def toJson (m : ImportMapping) : Json :=
  .object [("directory", .string m.directory), ("importBase", .string m.importBase)]

end ImportMapping

namespace SourceConfig

def keys : List String := ["importAlias", "directory", "additional"]

def ofJson? (j : Json) : Option SourceConfig := do
  match ← record? keys j with
  | [importAlias, directory, additional] =>
    return {
      importAlias := ← orDefault none (nullable? asString?) importAlias
      directory := ← orDefault none (nullable? path?) directory
      additional := ← orDefault [] (list? PathMapping.ofJson?) additional }
  | _ => none

def toJson (s : SourceConfig) : Json :=
  .object [("importAlias", optional .string s.importAlias),
    ("directory", optional ofPath s.directory),
    ("additional", .array (s.additional.map PathMapping.toJson))]

end SourceConfig

namespace OutputConfig

def keys : List String := ["resourcesDir", "traitsDir", "extensionsDir"]

def ofJson? (j : Json) : Option OutputConfig := do
  match ← record? keys j with
  | [resources, traits, extensions] =>
    return {
      resourcesDir := ← orDefault none (nullable? path?) resources
      traitsDir := ← orDefault none (nullable? path?) traits
      extensionsDir := ← orDefault none (nullable? path?) extensions }
  | _ => none

def toJson (o : OutputConfig) : Json :=
  .object [("resourcesDir", optional ofPath o.resourcesDir),
    ("traitsDir", optional ofPath o.traitsDir),
    ("extensionsDir", optional ofPath o.extensionsDir)]

end OutputConfig

namespace Config

def keys : List String :=
  ["projectRoot", "extensions", "models", "mixins", "output", "importMappings",
    "intermediateModels", "exclude", "dryRun"]

def ofJson? (j : Json) : Option Config := do
  match ← record? keys j with
  | [projectRoot, extensions, models, mixins, output, importMappings, intermediateModels, exclude,
      dryRun] =>
    return {
      projectRoot := ← orDefault ⟨"."⟩ path? projectRoot
      extensions := ← orDefault defaultExtensions (list? asString?) extensions
      models := ← orDefault {} SourceConfig.ofJson? models
      mixins := ← orDefault {} SourceConfig.ofJson? mixins
      output := ← orDefault {} OutputConfig.ofJson? output
      importMappings := ← orDefault [] (list? ImportMapping.ofJson?) importMappings
      intermediateModels := ← orDefault [] (list? asString?) intermediateModels
      exclude := ← orDefault [] (list? asString?) exclude
      dryRun := ← orDefault false asBool? dryRun }
  | _ => none

def toJson (c : Config) : Json :=
  .object [("projectRoot", ofPath c.projectRoot),
    ("extensions", .strings c.extensions),
    ("models", c.models.toJson),
    ("mixins", c.mixins.toJson),
    ("output", c.output.toJson),
    ("importMappings", .array (c.importMappings.map ImportMapping.toJson)),
    ("intermediateModels", .strings c.intermediateModels),
    ("exclude", .strings c.exclude),
    ("dryRun", .bool c.dryRun)]

end Config

end SchemaMigration
