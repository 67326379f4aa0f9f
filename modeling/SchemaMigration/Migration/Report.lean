import SchemaMigration.Artifact.Kind
import SchemaMigration.Migration.Diagnostic
import SchemaMigration.Usage.Graph

set_option autoImplicit false

namespace SchemaMigration

inductive Outcome where
  | processed
  | skipped
  | failed
deriving DecidableEq, Repr

structure Counters where
  processed : Nat := 0
  skipped : Nat := 0
  errors : Nat := 0
deriving DecidableEq, Repr

namespace Counters

def add (a b : Counters) : Counters :=
  ⟨a.processed + b.processed, a.skipped + b.skipped, a.errors + b.errors⟩

def record (c : Counters) : Outcome → Counters
  | .processed => { c with processed := c.processed + 1 }
  | .skipped => { c with skipped := c.skipped + 1 }
  | .failed => { c with errors := c.errors + 1 }

def ofOutcomes (outcomes : List Outcome) : Counters :=
  outcomes.foldl record {}

end Counters

structure ArtifactRecord where
  kind : ArtifactKind
  name : String
  path : String
  source : String
deriving DecidableEq, Repr

structure GraphSummary where
  modelToMixins : List (String × List String)
  mixinDependencies : List (String × List String)
  connectedMixins : List String
  unconnectedMixins : List String

namespace GraphSummary

def lastOfEach : List (String × List String) → List (String × List String)
  | [] => []
  | (name, targets) :: rest =>
    if rest.any (·.1 == name) then lastOfEach rest else (name, targets) :: lastOfEach rest

-- Two files may be shown under one name; the edges of the later one are kept.
def shownEdges (ctx : Context) (edges : Dependencies) : List (String × List String) :=
  (lastOfEach (edges.map fun (p, targets) => (ctx.display p, targets.map ctx.display))).mergeSort
    fun a b => decide (a.1 ≤ b.1)

def ofGraph (ctx : Context) (g : UsageGraph) (mixins : List Path) : GraphSummary where
  modelToMixins := shownEdges ctx g.modelToMixins
  mixinDependencies := shownEdges ctx g.mixinDependencies
  connectedMixins := g.connected.map ctx.display
  unconnectedMixins := (mixins.filter fun m => !g.isConnected m).map ctx.display

end GraphSummary

structure Report where
  dryRun : Bool
  models : Counters
  mixins : Counters
  total : Counters
  artifacts : List ArtifactRecord
  graph : GraphSummary
  diagnostics : List Diagnostic

namespace Report

def hasErrors (r : Report) : Bool :=
  r.diagnostics.any Diagnostic.isError

def padRight (width : Nat) (text : String) : String :=
  text ++ String.ofList (List.replicate (width - text.length) ' ')

def padLeft (width n : Nat) : String :=
  let digits := Nat.repr n
  String.ofList (List.replicate (width - digits.length) ' ') ++ digits

def countersLine (label : String) (c : Counters) : String :=
  "  " ++ padRight 7 label ++ " processed " ++ padLeft 4 c.processed ++ "  skipped "
    ++ padLeft 4 c.skipped ++ "  errors " ++ padLeft 4 c.errors ++ "\n"

def text (r : Report) : String :=
  let connected := r.graph.connectedMixins.length
  let mixins := connected + r.graph.unconnectedMixins.length
  let mode := if r.dryRun then " (dry run)" else ""
  let verb := if r.dryRun then "Would write" else "Wrote"
  let artifacts := r.artifacts.map fun a => s!"  {a.kind.name} {a.path}\n"
  let diagnostics := r.diagnostics.map fun d => s!"  {d.text}\n"
  s!"Migration finished{mode}\n"
    ++ countersLine "models" r.models
    ++ countersLine "mixins" r.mixins
    ++ countersLine "total" r.total
    ++ s!"  connected mixins: {connected} of {mixins}\n"
    ++ s!"{verb} {r.artifacts.length} artifact(s)\n"
    ++ String.join artifacts
    ++ (if r.diagnostics.isEmpty then "" else "Diagnostics:\n")
    ++ String.join diagnostics

end Report

end SchemaMigration
