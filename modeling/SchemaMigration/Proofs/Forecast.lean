import SchemaMigration.Proofs.Accounting
import SchemaMigration.Proofs.ConfiguredRoots

set_option autoImplicit false

namespace SchemaMigration

structure Outline where
  kind : ArtifactKind
  name : String
  path : Path

def Artifact.outline (a : Artifact) : Outline := ⟨a.kind, a.name, a.path⟩

def Outline.record (o : Outline) (ctx : Context) (source : Path) : ArtifactRecord :=
  { kind := o.kind, name := o.name, path := ctx.display o.path, source := ctx.display source }

namespace Context

section Source

variable (ctx : Context) (f : SourceFile) (role : Role)

def entityOf (source : Path) : String :=
  entityName source (ctx.source role.scope).roots ctx.extensions

def outputPath (kind : ArtifactKind) (source : Path) : Path :=
  let suggested := (ctx.stem? source).getD (ctx.entityOf role source) ++ ".ext.types.ts"
  (ctx.place kind suggested source).file

def extensionFor : Option Extension × List Diagnostic :=
  Project.extensionOf ctx f (ctx.entityOf role f.path)
    (ctx.outputPath role role.extensionKind f.path)

def kindsOf : List ArtifactKind :=
  let extended := (ctx.extensionFor f role).1.isSome
  let types := role.typesKind :: if extended then [.extensionType] else []
  role.descriptorKind :: (if f.language == .typeScript then types else []) ++
    if extended then [role.extensionKind] else []

def outlines : List Outline :=
  (ctx.kindsOf f role).map fun kind =>
    ⟨kind, ctx.entityOf role f.path, ctx.outputPath role kind f.path⟩

end Source

end Context

namespace Project

variable (project : Project) (f : SourceFile) (role : Role) (declaration : Declaration)

theorem place_eq_outputPath {kind : ArtifactKind} (derived : kind.policy.isNamed = false)
    (ctx : Context) (role : Role) (source : Path) :
    (ctx.place kind "" source).file = ctx.outputPath role kind source := by
  simp only [Context.outputPath, Context.place, derived, Bool.false_eq_true, if_false]

theorem extensionOf_eq (ctx : Context) :
    extensionOf ctx f (entityName f.path (ctx.source role.scope).roots ctx.extensions)
      (ctx.place role.extensionKind "" f.path).file = ctx.extensionFor f role := by
  rw [place_eq_outputPath (by cases role <;> rfl) ctx role]
  rfl

theorem outlines_planDeclared :
    (project.planDeclared f role declaration).artifacts.map Artifact.outline =
      project.ctx.outlines f role := by
  have own (kind : ArtifactKind) (derived : kind.policy.isNamed = false) :=
    place_eq_outputPath derived project.ctx role f.path
  simp only [planDeclared, extensionOf_eq, Context.outlines, Context.kindsOf]
  rw [own role.descriptorKind (by cases role <;> rfl),
    own role.extensionKind (by cases role <;> rfl)]
  cases (project.ctx.extensionFor f role).1 <;> cases f.language <;>
    simp [typeArtifacts, extensionTypes, Artifact.outline,
      own role.typesKind (by cases role <;> rfl), Context.entityOf, Context.outputPath]

theorem diagnostics_planDeclared :
    (project.planDeclared f role declaration).diagnostics =
      (project.ctx.extensionFor f role).2 := by
  simp only [planDeclared, extensionOf_eq]

end Project

structure Forecast where
  records : List ArtifactRecord
  told : List Diagnostic
  outcome : Outcome

namespace Context

def forecast (ctx : Context) (prepared : Prepared) (role : Role) (p : Path) : Forecast :=
  if role = .mixin ∧ prepared.loaded.failed.contains p = true then ⟨[], [], .failed⟩
  else if role = .mixin ∧ prepared.graph.isConnected p = false then
    ⟨[], [.skipped (ctx.display p) .notConnected], .skipped⟩
  else
    match prepared.loaded.parsed.get? p with
    | none => ⟨[], [], .failed⟩
    | some f =>
      if f.declaration.isNone then ⟨[], [.skipped (ctx.display p) .noDeclaration], .skipped⟩
      else
        ⟨(ctx.outlines f role).map (·.record ctx p), (ctx.extensionFor f role).2, .processed⟩

def forecastReport (ctx : Context) (d : Disk) : Report :=
  let prepared := ctx.prepare d
  let forecasts (agenda : List (Role × Path)) :=
    agenda.map fun entry => ctx.forecast prepared entry.1 entry.2
  let outcomes (agenda : List (Role × Path)) := (forecasts agenda).map Forecast.outcome
  let models := Counters.ofOutcomes (outcomes (prepared.agenda.filter (·.1 ≠ .mixin)))
  let mixins := Counters.ofOutcomes (outcomes (prepared.agenda.filter (·.1 = .mixin)))
  { dryRun := ctx.dryRun
    models
    mixins
    total := models.add mixins
    artifacts := (forecasts prepared.agenda).flatMap Forecast.records
    graph := GraphSummary.ofGraph ctx prepared.graph prepared.discovered.mixins
    diagnostics := Diagnostic.sort
      (prepared.diagnostics ++ (forecasts prepared.agenda).flatMap Forecast.told) }

end Context

theorem given_of_faultsOf_eq_nil {given : List (Artifact × Option DiskError)} {shown : String}
    (quiet : faultsOf given shown = []) : ∀ g ∈ given, g.2 = none := by
  intro g listed
  have none := List.filterMap_eq_nil_iff.mp quiet g listed
  simpa using none

theorem emittedOf_of_quiet {given : List (Artifact × Option DiskError)}
    (quiet : ∀ g ∈ given, g.2 = none) : emittedOf given = given.map Prod.fst := by
  have kept : (given.filter fun g => g.2.isNone) = given :=
    List.filter_eq_self.mpr fun g listed => by simp [quiet g listed]
  rw [emittedOf, kept]

namespace Visit

variable {ctx : Context} {prepared : Prepared}

-- The verdict rests on the disk, but what the report takes from it does not.
theorem forecast_eq_verdict (v : Visit) :
    ctx.forecast prepared v.role v.path =
      match v.verdict ctx prepared with
      | .unread => ⟨[], [], .failed⟩
      | .skip reason => ⟨[], [.skipped (ctx.display v.path) reason], .skipped⟩
      | .generate plan =>
        ⟨plan.artifacts.map (RunState.recordOf ctx v.path), plan.diagnostics, .processed⟩ := by
  have recorded (artifacts : List Artifact) :
      artifacts.map (RunState.recordOf ctx v.path) =
        (artifacts.map Artifact.outline).map (·.record ctx v.path) := by
    rw [List.map_map]
    rfl
  simp only [Context.forecast, verdict]
  split
  next => rfl
  next =>
    split
    next => rfl
    next =>
      cases read : prepared.loaded.parsed.get? v.path with
      | none => simp [fileVerdict, read]
      | some f =>
        cases declared : f.declaration with
        | none => simp [fileVerdict, read, Project.plan, declared]
        | some declaration =>
          simp only [fileVerdict, read, Project.plan, declared, recorded,
            Project.outlines_planDeclared, Project.diagnostics_planDeclared]
          rfl

theorem forecast_eq (v : Visit) (quiet : v.faults ctx prepared = []) :
    ctx.forecast prepared v.role v.path =
      ⟨(v.emitted ctx prepared).map (RunState.recordOf ctx v.path), v.told ctx prepared,
        v.outcome ctx prepared⟩ := by
  have written := given_of_faultsOf_eq_nil quiet
  rw [forecast_eq_verdict, outcome_eq, told, quiet, emitted, emittedOf_of_quiet written,
    v.given_artifacts, planned]
  cases v.verdict ctx prepared with
  | unread | skip => rfl
  | generate plan => simpa using written

end Visit

theorem Context.migrate_eq_forecast (ctx : Context) (d : Disk)
    (quiet : ∀ v ∈ ctx.visits d, v.faults ctx (ctx.prepare d) = []) :
    (migrate ctx d).2 = ctx.forecastReport d := by
  have each (keep : Role → Bool) :
      ((ctx.prepare d).agenda.filter (keep ·.1)).map
          (fun entry => ctx.forecast (ctx.prepare d) entry.1 entry.2) =
        ((ctx.visits d).filter (keep ·.role)).map fun v =>
          ⟨(v.emitted ctx (ctx.prepare d)).map (RunState.recordOf ctx v.path),
            v.told ctx (ctx.prepare d), v.outcome ctx (ctx.prepare d)⟩ := by
    rw [← ctx.visits_entries, List.filter_map, List.map_map]
    exact List.map_congr_left fun v member =>
      v.forecast_eq (quiet v (List.mem_of_mem_filter member))
  have all := each fun _ => true
  rw [List.filter_true, List.filter_true] at all
  rw [migrate_eq_visits]
  simp only [forecastReport, all, each (· ≠ .mixin), each (· = .mixin), List.map_map,
    List.flatMap_map, lastState_artifacts, lastState_diagnostics]
  rfl

namespace Context

theorem forecastReport_mode (ctx : Context) (d : Disk) (dryRun : Bool) :
    forecastReport { ctx with dryRun } d = { ctx.forecastReport d with dryRun } :=
  rfl

theorem ofConfig_mode (d : Disk) (config : Config) (dryRun : Bool) :
    ofConfig d { config with dryRun } = (ofConfig d config).map fun ctx => { ctx with dryRun } := by
  rw [ofConfig_passesOn d config dryRun config.intermediateModels]
  cases built : ofConfig d config with
  | error => rfl
  | ok ctx =>
    rw [← (configured_of_ofConfig built).intermediateModels]
    rfl

variable {ctx : Context} {d : Disk}

theorem quiet_of_dryRun (dry : ctx.dryRun = true) (v : Visit) (prepared : Prepared) :
    v.faults ctx prepared = [] := by
  rw [Visit.faults, Visit.given]
  cases v.verdict ctx prepared with
  | unread | skip => rfl
  | generate plan => simp [giveOut_dry dry, faultsOf]

theorem quiet_of_report
    (quiet : ∀ m ∈ (migrate ctx d).2.diagnostics, m.code? ≠ some writeFailed) :
    ∀ v ∈ ctx.visits d, v.faults ctx (ctx.prepare d) = [] := by
  intro v member
  rw [List.eq_nil_iff_forall_not_mem]
  intro m fault
  have told : m ∈ (ctx.lastState d).diagnostics.filter Diagnostic.isWriteFault := by
    rw [ctx.filter_writeFaults]
    exact List.mem_flatMap.mpr ⟨v, member, fault⟩
  obtain ⟨listed, isFault⟩ := List.mem_filter.mp told
  rw [migrate_eq_visits] at quiet
  exact quiet m (List.mem_mergeSort.mpr listed) (by simpa [Diagnostic.isWriteFault] using isFault)

theorem disk_of_dryRun (dry : ctx.dryRun = true) (d : Disk) : (migrate ctx d).1 = d := by
  have kept (agenda : List (Role × Path)) (state : RunState) :
      (Visit.final ctx (ctx.prepare d) state agenda).disk = state.disk := by
    induction agenda generalizing state with
    | nil => rfl
    | cons entry rest ih =>
      refine (ih _).trans ?_
      rw [Visit.after_disk]
      split
      · rw [giveOut_dry dry]
      · rfl
  rw [migrate_eq_visits]
  exact kept _ _

end Context

theorem migrate_dryRun_predicts {d : Disk} {config : Config} {ctx : Context}
    (built : Context.ofConfig d config = .ok ctx) :
    ∃ dry real, Context.ofConfig d { config with dryRun := true } = .ok dry ∧
      Context.ofConfig d { config with dryRun := false } = .ok real ∧
      (migrate dry d).1 = d ∧
      ((∀ m ∈ (migrate real d).2.diagnostics, m.code? ≠ some writeFailed) →
        (migrate dry d).2 = { (migrate real d).2 with dryRun := true }) := by
  refine ⟨{ ctx with dryRun := true }, { ctx with dryRun := false }, ?_, ?_,
    Context.disk_of_dryRun rfl d, ?_⟩
  · rw [Context.ofConfig_mode, built]
    rfl
  · rw [Context.ofConfig_mode, built]
    rfl
  · intro quiet
    rw [Context.migrate_eq_forecast _ d fun v _ => Context.quiet_of_dryRun rfl v _,
      Context.migrate_eq_forecast _ d (Context.quiet_of_report quiet),
      Context.forecastReport_mode ctx d true, Context.forecastReport_mode ctx d false]

theorem Context.exists_ofConfig {d : Disk} {config : Config} {check : Context → Bool}
    (checked : (ofConfig d config).toOption.any check = true) :
    ∃ ctx, ofConfig d config = .ok ctx ∧ check ctx = true := by
  cases built : ofConfig d config with
  | error fault => simp [built, Except.toOption] at checked
  | ok ctx => exact ⟨ctx, rfl, by simpa [built, Except.toOption] using checked⟩

def plainDisk : Disk where
  entries := [
    (["m"], .directory),
    (["m", "user.js"], .file "import T from '../x/tag';export default M.extend(T)".toUTF8),
    (["x"], .directory),
    (["x", "tag.js"], .file "export default M.create()".toUTF8)]
  workingDirectory := []

def plainConfig : Config where
  projectRoot := ⟨"/"⟩
  mixins := { directory := some ⟨"x"⟩ }
  intermediateModels := ["./m/user"]

theorem plain_report :
    ((Context.ofConfig plainDisk plainConfig).toOption.any fun real =>
      let report := (migrate real plainDisk).2
      report.diagnostics.all (·.code? != some writeFailed) &&
        report.artifacts.map ArtifactRecord.path ==
          ["app/data/traits/user.schema.js", "app/data/traits/tag.schema.js"]) = true := by
  decide +kernel

theorem migrate_dryRun_predicts_plain :
    ∃ dry real, Context.ofConfig plainDisk { plainConfig with dryRun := true } = .ok dry ∧
      Context.ofConfig plainDisk plainConfig = .ok real ∧ (migrate dry plainDisk).1 = plainDisk ∧
      (∀ m ∈ (migrate real plainDisk).2.diagnostics, m.code? ≠ some writeFailed) ∧
      (migrate dry plainDisk).2 = { (migrate real plainDisk).2 with dryRun := true } ∧
      (migrate dry plainDisk).2.artifacts.map ArtifactRecord.path =
        ["app/data/traits/user.schema.js", "app/data/traits/tag.schema.js"] := by
  obtain ⟨ctx, built, checked⟩ := Context.exists_ofConfig plain_report
  obtain ⟨dry, real, asDry, asReal, kept, predicted⟩ := migrate_dryRun_predicts built
  obtain rfl : real = ctx := Except.ok.inj (asReal.symm.trans built)
  rw [Bool.and_eq_true, beq_iff_eq] at checked
  have quiet : ∀ m ∈ (migrate real plainDisk).2.diagnostics, m.code? ≠ some writeFailed := by
    simpa using checked.1
  refine ⟨dry, real, asDry, built, kept, quiet, predicted quiet, ?_⟩
  rw [predicted quiet]
  exact checked.2

end SchemaMigration
