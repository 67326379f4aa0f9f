import SchemaMigration.Proofs.BaseTraits

set_option autoImplicit false

namespace SchemaMigration

namespace Context

variable {ctx : Context} {d : Disk} {specifiers : List String}

def withBases (ctx : Context) (specifiers : List String) : Context :=
  { ctx with intermediateModels := specifiers }

theorem bases_isCanonical (ctx : Context) (start : Place.IsProper d.workingDirectory) :
    ∀ p ∈ (Intermediates.ofContext ctx d).paths, p.IsCanonical := by
  intro p found
  rcases Intermediates.mem_foldl_add found with none | ⟨specifier, resolved⟩
  next => cases none
  next => exact resolveFromRoot?_isCanonical start resolved

theorem intermediates_isCanonical (ctx : Context) (start : Place.IsProper d.workingDirectory) :
    ∀ p ∈ (ctx.prepare d).intermediates, p.IsCanonical := by
  apply BaseOrder.forall_mem_ofMembers (ctx.bases_isCanonical start)
  intro a b based
  obtain ⟨f, -, declared⟩ := Option.bind_eq_some_iff.mp based
  obtain ⟨declaration, -, named⟩ := Option.bind_eq_some_iff.mp declared
  obtain ⟨base, -, imported⟩ := Option.bind_eq_some_iff.mp named
  obtain ⟨i, -, resolved⟩ := Option.bind_eq_some_iff.mp imported
  exact resolve?_isCanonical start resolved

section Reordered

variable (order : specifiers.Perm ctx.intermediateModels)

include order

theorem isIntermediate_withBases (p : Path) :
    (ctx.withBases specifiers).IsIntermediate d p ↔ ctx.IsIntermediate d p := by
  simp only [IsIntermediate, withBases, order.mem_iff]
  rfl

variable (names : d.ProperNames)

include names

theorem filesRead_withBases :
    ((ctx.withBases specifiers).filesRead d).Perm (ctx.filesRead d) := by
  have bases : (Intermediates.ofContext (ctx.withBases specifiers) d).paths.Perm
      (Intermediates.ofContext ctx d).paths := by
    apply (Intermediates.ofContext_distinct _ d).perm_of_contains
      (Intermediates.ofContext_distinct ctx d) (bases_isCanonical _ names.workingDirectory)
      (bases_isCanonical _ names.workingDirectory)
    intro p
    rw [Bool.eq_iff_iff, Intermediates.contains_ofContext, Intermediates.contains_ofContext,
      isIntermediate_withBases order]
  exact (bases.filter _).append_left _

theorem parsed_withBases (p : Path) :
    ((ctx.withBases specifiers).prepare d).loaded.parsed.get? p =
      (ctx.prepare d).loaded.parsed.get? p := by
  rw [(prepare_reads _ d).parsed, (prepare_reads ctx d).parsed,
    (filesRead_distinct _ d).find?_perm (filesRead_distinct ctx d)
      (filesRead_withBases order names)]

theorem extendsIntermediate_withBases :
    (ctx.withBases specifiers).ExtendsIntermediate d
        ((ctx.withBases specifiers).prepare d).loaded.parsed =
      ctx.ExtendsIntermediate d (ctx.prepare d).loaded.parsed := by
  funext p b
  have based : Project.baseModel? (ctx.withBases specifiers) d
      ((ctx.withBases specifiers).prepare d).loaded.parsed p =
        Project.baseModel? ctx d (ctx.prepare d).loaded.parsed p := by
    rw [Project.baseModel?, Project.baseModel?, parsed_withBases order names]
    rfl
  simp only [ExtendsIntermediate, based, isIntermediate_withBases order]

theorem hasNoCycle_withBases (acyclic : ctx.HasNoCycle d) :
    (ctx.withBases specifiers).HasNoCycle d := by
  rwa [HasNoCycle, extendsIntermediate_withBases order names]

theorem intermediates_withBases :
    ((ctx.withBases specifiers).prepare d).intermediates.Perm (ctx.prepare d).intermediates := by
  obtain ⟨reported, first⟩ := prepare_basesFirst (ctx.withBases specifiers) d
  obtain ⟨reported', second⟩ := prepare_basesFirst ctx d
  apply Path.Distinct.perm_of_contains first.distinct second.distinct
    (intermediates_isCanonical _ names.workingDirectory)
    (intermediates_isCanonical _ names.workingDirectory)
  intro p
  rw [Bool.eq_iff_iff, first.member, second.member, isIntermediate_withBases order]

theorem graph_withBases :
    ((ctx.withBases specifiers).prepare d).graph = (ctx.prepare d).graph := by
  have bases := intermediates_withBases order names
  have distinct (ctx : Context) : Path.Distinct ((ctx.prepare d).discovered.models ++
      (ctx.prepare d).intermediates.filter fun p =>
        !(ctx.prepare d).discovered.models.contains p) := by
    obtain ⟨reported, first⟩ := ctx.prepare_basesFirst d
    apply Path.Distinct.append_new _ first.distinct
    exact (List.pairwise_append.mp (ctx.discoveredSources_distinct d)).1
  have listed : ∀ p ∈ (ctx.discover d).mixins, p.IsCanonical := by
    intro p mixin
    exact discover_isCanonical names (List.mem_append_right _ mixin)
  exact usage_perm names.workingDirectory listed (distinct _) (distinct ctx)
    ((bases.filter _).append_left _) (parsed_withBases order names)

theorem alike_withBases :
    ((ctx.withBases specifiers).prepare d).Alike (ctx.prepare d) where
  discovered := rfl
  parsed := parsed_withBases order names
  failed p := by
    rw [(prepare_reads _ d).failed, (prepare_reads ctx d).failed]
    exact ((filesRead_withBases order names).filter _).contains_eq
  intermediates := intermediates_withBases order names
  graph := graph_withBases order names

theorem registry_withBases (dry : ctx.dryRun = true) (p : Path) :
    ((ctx.withBases specifiers).lastState d).registry.get? p =
      (ctx.lastState d).registry.get? p := by
  have alike := alike_withBases order names
  rw [((ctx.withBases specifiers).lastState_registered dry).registry,
    (ctx.lastState_registered dry).registry, alike.intermediates.contains_eq, alike.traitOf?]
  rfl

theorem verdict_withBases (dry : ctx.dryRun = true) (role : Role) (p : Path) :
    Visit.verdict ⟨role, p, (ctx.withBases specifiers).lastState d⟩ (ctx.withBases specifiers)
        ((ctx.withBases specifiers).prepare d) =
      Visit.verdict ⟨role, p, ctx.lastState d⟩ ctx (ctx.prepare d) := by
  have alike := alike_withBases order names
  have disk : ((ctx.withBases specifiers).lastState d).disk = (ctx.lastState d).disk := by
    rw [((ctx.withBases specifiers).lastState_registered dry).disk,
      (ctx.lastState_registered dry).disk]
  apply alike.verdict ctx disk
  intro f read proper
  apply Project.baseTrait?_congr
  next => simp only [RunState.project, Project.baseModel?, disk, alike.parsed]
  next => exact fun p => alike.intermediates.contains_eq
  next => exact registry_withBases order names dry

theorem emissions_withBases (dry : ctx.dryRun = true) (acyclic : ctx.HasNoCycle d) :
    ((ctx.withBases specifiers).emissions d).Perm (ctx.emissions d) := by
  have alike := alike_withBases order names
  rw [ctx.emissions_eq_last dry acyclic,
    (ctx.withBases specifiers).emissions_eq_last dry
      (hasNoCycle_withBases order names acyclic)]
  have same : (ctx.withBases specifiers).emissionsAt ((ctx.withBases specifiers).prepare d)
      ((ctx.withBases specifiers).lastState d) =
        ctx.emissionsAt (ctx.prepare d) (ctx.lastState d) := by
    funext entry
    rw [emissionsAt, emissionsAt, Visit.planned, Visit.planned,
      verdict_withBases order names dry, alike.parsed]
  rw [same]
  exact alike.agenda.flatMap_right _

theorem report_withBases :
    ((ctx.withBases specifiers).forecastReport d).models = (ctx.forecastReport d).models ∧
      ((ctx.withBases specifiers).forecastReport d).mixins = (ctx.forecastReport d).mixins ∧
      ((ctx.withBases specifiers).forecastReport d).graph = (ctx.forecastReport d).graph ∧
      ((ctx.withBases specifiers).forecastReport d).artifacts.Perm
        (ctx.forecastReport d).artifacts := by
  have alike := alike_withBases order names
  have each : (fun entry : Role × Path => (ctx.withBases specifiers).forecast
      ((ctx.withBases specifiers).prepare d) entry.1 entry.2) =
        fun entry => ctx.forecast (ctx.prepare d) entry.1 entry.2 :=
    funext fun entry => alike.forecast entry.1 entry.2
  have counted (keep : Role × Path → Bool) :
      Counters.ofOutcomes (((((ctx.withBases specifiers).prepare d).agenda.filter keep).map
        fun entry => ctx.forecast (ctx.prepare d) entry.1 entry.2).map Forecast.outcome) =
        Counters.ofOutcomes ((((ctx.prepare d).agenda.filter keep).map
          fun entry => ctx.forecast (ctx.prepare d) entry.1 entry.2).map Forecast.outcome) := by
    have outcomes := ((alike.agenda.filter keep).map
      fun entry => ctx.forecast (ctx.prepare d) entry.1 entry.2).map Forecast.outcome
    simp only [Counters.ofOutcomes_eq, outcomes.count_eq]
  simp only [forecastReport, each, counted, alike.graph, alike.discovered]
  refine ⟨trivial, trivial, rfl, ?_⟩
  exact (alike.agenda.map _).flatMap_right _

end Reordered

theorem ofConfig_withBases (d : Disk) (config : Config) (specifiers : List String) :
    ofConfig d { config with intermediateModels := specifiers } =
      (ofConfig d config).map (·.withBases specifiers) := by
  rw [ofConfig_passesOn d config config.dryRun specifiers]
  cases built : ofConfig d config with
  | error => rfl
  | ok ctx =>
    rw [← (configured_of_ofConfig built).dryRun]
    rfl

theorem hasNoCycle_of_broken
    (unbroken : (BaseOrder.ofMembers (Intermediates.ofContext ctx d).paths
      (Project.baseModel? ctx d (ctx.prepare d).loaded.parsed)).broken.isEmpty = true) :
    ctx.HasNoCycle d := by
  intro p cycle
  obtain ⟨a, reported, -⟩ :=
    ((ctx.ofContext_basesFirst d _).cycles.2 _).mp ⟨p, cycle, rfl⟩
  rw [List.isEmpty_iff.mp unbroken] at reported
  cases reported

end Context

theorem dryRun_order_independent {d : Disk} {config : Config} {ctx : Context}
    {specifiers : List String} (names : d.ProperNames)
    (built : Context.ofConfig d { config with dryRun := true } = .ok ctx)
    (acyclic : ctx.HasNoCycle d) (order : specifiers.Perm config.intermediateModels) :
    ∃ other,
      Context.ofConfig d { config with dryRun := true, intermediateModels := specifiers } =
        .ok other ∧
      (migrate other d).2.models = (migrate ctx d).2.models ∧
      (migrate other d).2.mixins = (migrate ctx d).2.mixins ∧
      (migrate other d).2.total = (migrate ctx d).2.total ∧
      (migrate other d).2.graph = (migrate ctx d).2.graph ∧
      (migrate other d).2.artifacts.Perm (migrate ctx d).2.artifacts ∧
      (other.emissions d).Perm (ctx.emissions d) ∧
      ∀ run ∈ [ctx, other], (migrate run d).2.artifacts.map (fun r => (r.kind, r.name, r.path)) =
        (run.emissions d).map fun x =>
          (x.artifact.kind, x.artifact.name, run.display x.artifact.path) := by
  have configured := Context.configured_of_ofConfig built
  have dry : ctx.dryRun = true := configured.dryRun
  have listed : specifiers.Perm ctx.intermediateModels := by
    rwa [configured.intermediateModels]
  refine ⟨ctx.withBases specifiers, ?_, ?_⟩
  next =>
    have changed := Context.ofConfig_withBases d { config with dryRun := true } specifiers
    rw [changed, built]
    rfl
  next =>
    rw [Context.migrate_eq_forecast ctx d fun v _ => Context.quiet_of_dryRun dry v _,
      Context.migrate_eq_forecast _ d fun v _ => Context.quiet_of_dryRun (by exact dry) v _]
    obtain ⟨models, mixins, graph, artifacts⟩ := Context.report_withBases listed names
    refine ⟨models, mixins, ?_, graph, artifacts,
      Context.emissions_withBases listed names dry acyclic,
      fun run _ => artifacts_eq_emissions run d⟩
    exact congrArg₂ Counters.add models mixins

def layeredDisk : Disk where
  entries := [
    (["m"], .directory),
    (["m", "base.js"], .file "export default M.extend()".toUTF8),
    (["m", "user.js"], .file "import B from './base';export default B.extend()".toUTF8)]
  workingDirectory := []

def layeredConfig : Config where
  projectRoot := ⟨"/"⟩
  mixins := { directory := some ⟨"x"⟩ }
  intermediateModels := ["./m/user", "./m/base"]
  dryRun := true

theorem layered_runs :
    ((Context.ofConfig layeredDisk layeredConfig).toOption.any fun ctx =>
      (BaseOrder.ofMembers (Intermediates.ofContext ctx layeredDisk).paths
        (Project.baseModel? ctx layeredDisk (ctx.prepare layeredDisk).loaded.parsed)).broken.isEmpty
      && (migrate ctx layeredDisk).2.models.processed == 2) = true := by
  decide +kernel

theorem dryRun_order_independent_layered :
    ∃ ctx other, Context.ofConfig layeredDisk layeredConfig = .ok ctx ∧
      Context.ofConfig layeredDisk
        { layeredConfig with intermediateModels := ["./m/base", "./m/user"] } = .ok other ∧
      ctx.HasNoCycle layeredDisk ∧ (migrate ctx layeredDisk).2.models.processed = 2 ∧
      (migrate other layeredDisk).2.models = (migrate ctx layeredDisk).2.models ∧
      (migrate other layeredDisk).2.graph = (migrate ctx layeredDisk).2.graph ∧
      (other.emissions layeredDisk).Perm (ctx.emissions layeredDisk) := by
  have names : layeredDisk.ProperNames := by
    constructor <;> simp only [layeredDisk, Place.IsProper] <;> decide
  obtain ⟨ctx, built, checked⟩ := Context.exists_ofConfig layered_runs
  rw [Bool.and_eq_true, beq_iff_eq] at checked
  have acyclic := Context.hasNoCycle_of_broken checked.1
  have order : ["./m/base", "./m/user"].Perm layeredConfig.intermediateModels :=
    List.Perm.swap _ _ _
  obtain ⟨other, rebuilt, models, -, -, graph, -, emissions, -⟩ :=
    dryRun_order_independent names built acyclic order
  exact ⟨ctx, other, built, rebuilt, acyclic, checked.2, models, graph, emissions⟩

end SchemaMigration
