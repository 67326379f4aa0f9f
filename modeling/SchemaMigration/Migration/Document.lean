import SchemaMigration.Json.Printer
import SchemaMigration.Migration.Report

set_option autoImplicit false

namespace SchemaMigration

def Counters.toJson (c : Counters) : Json :=
  .object [("processed", .nat c.processed), ("skipped", .nat c.skipped), ("errors", .nat c.errors)]

def ArtifactRecord.toJson (a : ArtifactRecord) : Json :=
  .object [("type", .string a.kind.name), ("name", .string a.name), ("path", .string a.path),
    ("source", .string a.source)]

def GraphSummary.toJson (g : GraphSummary) : Json :=
  let edges (e : List (String × List String)) :=
    Json.object (e.map fun (name, targets) => (name, .strings targets))
  .object [("modelToMixins", edges g.modelToMixins),
    ("mixinDependencies", edges g.mixinDependencies),
    ("connectedMixins", .strings g.connectedMixins),
    ("unconnectedMixins", .strings g.unconnectedMixins)]

def Diagnostic.toJson : Diagnostic → Json
  | .error path stage code message => problem "error" path stage code message
  | .warning path stage code message => problem "warning" path stage code message
  | .skipped path reason =>
    .object [("level", .string "skipped"), ("path", .string path), ("reason", .string reason.name)]
where
  problem (level path : String) (stage : Stage) (code message : String) : Json :=
    .object [("level", .string level), ("path", .string path), ("stage", .string stage.name),
      ("code", .string code), ("message", .string message)]

def Report.toJson (r : Report) : Json :=
  .object [("dryRun", .bool r.dryRun),
    ("models", r.models.toJson),
    ("mixins", r.mixins.toJson),
    ("total", r.total.toJson),
    ("artifacts", .array (r.artifacts.map ArtifactRecord.toJson)),
    ("graph", r.graph.toJson),
    ("diagnostics", .array (r.diagnostics.map Diagnostic.toJson))]

def reportVersion : String := "1.0.0"

def toolName : String := "schema-migrate"

def envelope (id : String) (data : Json) (isPartial : Bool) : Json :=
  .object [("schema_version", .string reportVersion),
    ("execution_id", .string id),
    ("tool", .string toolName),
    ("data", data),
    ("partial", .bool isPartial)]

end SchemaMigration
