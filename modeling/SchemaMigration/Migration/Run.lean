import SchemaMigration.Disk.Write
import SchemaMigration.Migration.BaseOrder
import SchemaMigration.Migration.Discovery
import SchemaMigration.Migration.Load
import SchemaMigration.Migration.Plan
import SchemaMigration.Migration.Report

set_option autoImplicit false

namespace SchemaMigration

structure Intermediates where
  paths : List Path
  unresolved : List String

namespace Intermediates

def add (found : Intermediates) (specifier : String) : Option Path → Intermediates
  | some p => if found.paths.contains p then found else { found with paths := found.paths ++ [p] }
  | none => { found with unresolved := found.unresolved ++ [specifier] }

def ofContext (ctx : Context) (d : Disk) : Intermediates :=
  ctx.intermediateModels.foldl
    (fun found specifier => found.add specifier (ctx.resolveFromRoot? d specifier .model)) ⟨[], []⟩

def unresolvedDiagnostic (specifier : String) : Diagnostic :=
  .error "" .config unresolvedIntermediate
    s!"intermediate model '{specifier}' could not be resolved"

def cycleDiagnostic (ctx : Context) (p : Path) : Diagnostic :=
  .error (ctx.display p) .config intermediateCycle
    "intermediate models extend each other in a cycle; the cycle was broken here"

end Intermediates

structure Prepared where
  discovered : Discovered
  loaded : Loaded
  intermediates : List Path
  graph : UsageGraph
  diagnostics : List Diagnostic

namespace Prepared

def plainModels (prepared : Prepared) : List Path :=
  prepared.discovered.models.filter fun p => !prepared.intermediates.contains p

end Prepared

namespace Context

def resolveIntermediates (ctx : Context) (d : Disk) (sources : Loaded) : Loaded × List Path :=
  let found := Intermediates.ofContext ctx d
  let unresolved := found.unresolved.map Intermediates.unresolvedDiagnostic
  let loaded := found.paths.foldl (fun loaded p => loaded.addNew ctx d p)
    { sources with diagnostics := sources.diagnostics ++ unresolved }
  let order := BaseOrder.ofMembers found.paths (Project.baseModel? ctx d loaded.parsed)
  let cycles := order.broken.map (Intermediates.cycleDiagnostic ctx)
  ({ loaded with diagnostics := loaded.diagnostics ++ cycles }, order.ordered)

def prepare (ctx : Context) (d : Disk) : Prepared :=
  let discovered := ctx.discover d
  let sources := (discovered.models ++ discovered.mixins).foldl
    (fun loaded p => loaded.add ctx d p) Loaded.empty
  let (loaded, intermediates) := ctx.resolveIntermediates d sources
  let extra := intermediates.filter fun p => !discovered.models.contains p
  let (graph, warnings) :=
    ctx.usage d (discovered.models ++ extra) discovered.mixins loaded.parsed
  { discovered
    loaded
    intermediates
    graph
    diagnostics :=
      (discovered.excluded.map fun p => .skipped (ctx.display p) .excludedByGlob)
        ++ loaded.diagnostics ++ warnings }

end Context

def Disk.writeArtifact (d : Disk) (a : Artifact) : Disk × Option DiskError :=
  match d.createDirectories a.directory with
  | (made, none) => made.writeText a.path a.code
  | (made, some e) => (made, some e)

structure RunState where
  disk : Disk
  registry : TraitRegistry
  artifacts : List ArtifactRecord
  diagnostics : List Diagnostic

namespace RunState

def start (d : Disk) (prepared : Prepared) : RunState :=
  { disk := d, registry := [], artifacts := [], diagnostics := prepared.diagnostics }

def note (state : RunState) (diagnostics : List Diagnostic) : RunState :=
  { state with diagnostics := state.diagnostics ++ diagnostics }

def recordOf (ctx : Context) (source : Path) (a : Artifact) : ArtifactRecord :=
  { kind := a.kind, name := a.name, path := ctx.display a.path, source := ctx.display source }

def addRecord (state : RunState) (record : ArtifactRecord) : RunState :=
  { state with artifacts := state.artifacts ++ [record] }

def writeDiagnostic (shown : String) (a : Artifact) (e : DiskError) : Diagnostic :=
  .error shown .write writeFailed s!"write failure for {a.path.text}: {e.message}"

-- Gives out one generated file; the flag says whether an earlier one failed.
def emit (ctx : Context) (source : Path) (state : RunState × Bool) (a : Artifact) :
    RunState × Bool :=
  let (state, failed) := state
  let record := recordOf ctx source a
  if ctx.dryRun then (state.addRecord record, failed)
  else
    match state.disk.writeArtifact a with
    | (d, none) => ({ state with disk := d }.addRecord record, failed)
    | (d, some e) =>
      ({ state with disk := d }.note [writeDiagnostic (ctx.display source) a e], true)

def register (state : RunState) (role : Role) (p : Path) (entry : TraitEntry) : RunState :=
  if role == .intermediate then { state with registry := state.registry.insert p entry }
  else state

def carryOut (state : RunState) (ctx : Context) (p : Path) (role : Role) (plan : Plan) :
    RunState × Outcome :=
  match plan.artifacts.foldl (emit ctx p) (state.note plan.diagnostics, false) with
  -- A base of which a file could not be written gives no trait to the models that extend it.
  | (state, true) => (state, .failed)
  | (state, false) => (state.register role p plan.entry, .processed)

def project (state : RunState) (ctx : Context) (prepared : Prepared) : Project where
  ctx
  disk := state.disk
  parsed := prepared.loaded.parsed
  mixins := prepared.discovered.mixins
  intermediates := prepared.intermediates
  registry := state.registry

def migrateFile (state : RunState) (ctx : Context) (prepared : Prepared) (role : Role)
    (p : Path) : RunState × Outcome :=
  match prepared.loaded.parsed.get? p with
  | none => (state, .failed)
  | some f =>
    match (state.project ctx prepared).plan f role with
    | .error reason => (state.note [.skipped (ctx.display p) reason], .skipped)
    | .ok plan => state.carryOut ctx p role plan

def migrateMixin (state : RunState) (ctx : Context) (prepared : Prepared) (p : Path) :
    RunState × Outcome :=
  if prepared.loaded.failed.contains p then (state, .failed)
  else if !prepared.graph.isConnected p then
    (state.note [.skipped (ctx.display p) .notConnected], .skipped)
  else state.migrateFile ctx prepared .mixin p

def forEach (step : RunState → Path → RunState × Outcome) :
    RunState → List Path → RunState × List Outcome
  | state, [] => (state, [])
  | state, p :: rest =>
    let (state, outcome) := step state p
    let (state, outcomes) := forEach step state rest
    (state, outcome :: outcomes)

end RunState

open RunState in
def migrate (ctx : Context) (d : Disk) : Disk × Report :=
  let prepared := ctx.prepare d
  let mixins := prepared.discovered.mixins
  let (state, ofBases) :=
    forEach (migrateFile · ctx prepared .intermediate) (start d prepared) prepared.intermediates
  let (state, ofModels) :=
    forEach (migrateFile · ctx prepared .model) state prepared.plainModels
  let (state, ofMixins) := forEach (migrateMixin · ctx prepared) state mixins
  let models := Counters.ofOutcomes (ofBases ++ ofModels)
  let mixinCounters := Counters.ofOutcomes ofMixins
  (state.disk,
    { dryRun := ctx.dryRun
      models
      mixins := mixinCounters
      total := models.add mixinCounters
      artifacts := state.artifacts
      graph := GraphSummary.ofGraph ctx prepared.graph mixins
      diagnostics := Diagnostic.sort state.diagnostics })

end SchemaMigration
