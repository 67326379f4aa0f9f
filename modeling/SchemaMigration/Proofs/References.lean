import SchemaMigration.Proofs.KeptFiles
import SchemaMigration.Proofs.OutputSpecifiers
import SchemaMigration.Proofs.UsageGraph

set_option autoImplicit false

namespace SchemaMigration

theorem Context.giveOut_workingDirectory (ctx : Context) (d : Disk) (artifacts : List Artifact) :
    (ctx.giveOut d artifacts).1.workingDirectory = d.workingDirectory := by
  induction artifacts generalizing d with
  | nil => rfl
  | cons a rest ih =>
    simp only [giveOut, ih]
    split
    · rfl
    · exact (Disk.effect_writeArtifact d a).keeps.workingDirectory

def TraitEntry.import? (t : TraitEntry) (importer : Path) : Option InterfaceImport :=
  t.typesPath.map fun path => ⟨traitInterfaceName t.name, specifierBetween importer path⟩

def Context.traitEntry (ctx : Context) (role : Role) (f : SourceFile) : TraitEntry where
  name := ctx.entityOf role f.path
  schemaPath := ctx.outputPath role role.descriptorKind f.path
  typesPath :=
    if f.language == .typeScript then some (ctx.outputPath role role.typesKind f.path) else none

namespace Project

variable {project : Project} {f : SourceFile} {role : Role} {declaration : Declaration}

theorem entry_planDeclared :
    (project.planDeclared f role declaration).entry = project.ctx.traitEntry role f := by
  have own (kind : ArtifactKind) (derived : kind.policy.isNamed = false) :=
    place_eq_outputPath derived project.ctx role f.path
  simp only [planDeclared, extensionOf_eq, Context.traitEntry, Context.entityOf]
  rw [own role.descriptorKind (by cases role <;> rfl)]
  cases f.language <;> simp [typeArtifacts, own role.typesKind (by cases role <;> rfl)]

theorem planDeclared_code {a : Artifact}
    (planned : a ∈ (project.planDeclared f role declaration).artifacts) :
    let traits := project.traitsOf f role declaration.mixins
    (a.kind = role.descriptorKind →
      ∃ extension?, a.code = role.descriptorSource
        ⟨a.name, f.fields, traits.map TraitEntry.name, extension?⟩) ∧
    (a.kind = role.typesKind →
      ∃ signature? : Option InterfaceImport, a.code = role.typesSource a.name f.fields
        (traits.filterMap (·.import? a.path) ++ signature?.toList)) := by
  simp only [planDeclared, List.mem_append, List.mem_cons] at planned
  rcases planned with (rfl | types) | extensions
  · refine ⟨fun _ => ⟨_, rfl⟩, fun kind => ?_⟩
    cases role <;> cases kind
  · split at types
    · rcases List.mem_cons.mp types with rfl | signature
      · refine ⟨fun kind => ?_, fun _ => ⟨_, rfl⟩⟩
        cases role <;> cases kind
      · simp only [Option.mem_toList, Option.map_eq_some_iff] at signature
        obtain ⟨-, ⟨e, -, rfl⟩, rfl⟩ := signature
        constructor <;> intro kind <;> cases role <;> cases kind
    · cases types
  · simp only [Option.mem_toList, Option.map_eq_some_iff] at extensions
    obtain ⟨e, -, rfl⟩ := extensions
    constructor <;> intro kind <;> cases role <;> cases kind

theorem mem_foldl_addTrait {added first : List TraitEntry} {t : TraitEntry}
    (member : t ∈ added.foldl addTrait first) : t ∈ first ∨ t ∈ added := by
  induction added generalizing first with
  | nil => exact .inl member
  | cons entry rest ih =>
    rcases ih member with held | later
    · rw [addTrait] at held
      split at held
      · exact .inl held
      · rcases List.mem_append.mp held with old | last
        · exact .inl old
        · exact .inr (by simp [List.mem_singleton.mp last])
    · exact .inr (List.mem_cons_of_mem entry later)

theorem mem_traitsOf {mixins : List String} {t : TraitEntry}
    (member : t ∈ project.traitsOf f role mixins) :
    project.baseTrait? f = some t ∨ ∃ name ∈ mixins, project.mixinTrait? f name = some t := by
  rcases mem_foldl_addTrait member with base | added
  · split at base
    · cases base
    · exact .inl (Option.mem_toList.mp base)
  · exact .inr (List.mem_filterMap.mp added)

theorem mixinTrait?_eq_some {name : String} {t : TraitEntry}
    (found : project.mixinTrait? f name = some t) :
    ∃ i ∈ f.imports, ∃ mixin g,
      project.ctx.resolveMixin? project.disk i.specifier f.path = some mixin ∧
      project.mixins.contains mixin = true ∧ project.parsed.get? mixin = some g ∧
      (mixin = g.path → t = project.ctx.traitEntry .mixin g) := by
  simp only [mixinTrait?, Option.bind_eq_bind, Option.bind_eq_some_iff, Prod.exists,
    Option.guard_eq_some'] at found
  obtain ⟨i, binding, bound, mixin, resolved, _, known, g, read, entry⟩ := found
  obtain rfl := Option.some.inj entry
  obtain ⟨i', imported, same⟩ := List.exists_of_findSome?_eq_some bound
  obtain ⟨_, _, equal⟩ := Option.map_eq_some_iff.mp same
  cases equal
  refine ⟨i, imported, mixin, g, resolved, known, read, ?_⟩
  rintro rfl
  rw [place_eq_outputPath rfl _ .mixin, place_eq_outputPath rfl _ .mixin]
  rfl

end Project

structure Emits (ctx : Context) (d : Disk) (t : TraitEntry) : Prop where
  descriptor : ∃ x ∈ ctx.emissions d, x.artifact.outline = ⟨.trait, t.name, t.schemaPath⟩
  interface : ∀ path, t.typesPath = some path →
    ∃ x ∈ ctx.emissions d, x.artifact.outline = ⟨.traitType, t.name, path⟩

def Omits (ctx : Context) (d : Disk) (t : TraitEntry) : Prop :=
  ∃ w ∈ ctx.mixinVisits d, ∃ g, loadSource d w.path = .ok g ∧ t = ctx.traitEntry .mixin g ∧
    w.outcome ctx (ctx.prepare d) = .skipped ∧ (ctx.dryRun = true → g.declaration = none)

structure Emission.Refers (x : Emission) (ctx : Context) (d : Disk) (fields : List Field)
    (traits : List TraitEntry) : Prop where
  descriptor : x.artifact.kind = x.role.descriptorKind →
    ∃ extension?, x.artifact.code = x.role.descriptorSource
      ⟨x.artifact.name, fields, traits.map TraitEntry.name, extension?⟩
  interface : x.artifact.kind = x.role.typesKind →
    ∃ signature? : Option InterfaceImport,
      x.artifact.code = x.role.typesSource x.artifact.name fields
        (traits.filterMap (·.import? x.artifact.path) ++ signature?.toList)
  comes : ∀ t ∈ traits, Emits ctx d t ∨ Omits ctx d t
  imports : ∀ t ∈ traits, ∀ i, t.import? x.artifact.path = some i →
    ∃ path, t.typesPath = some path ∧
      ((x.artifact.directory.join ⟨i.specifier⟩).normalize == path.withoutExtension) = true

namespace Visit

variable {ctx : Context} {d : Disk} {v : Visit}

structure Generates (v : Visit) (ctx : Context) (d : Disk) (f : SourceFile)
    (declaration : Declaration) : Prop where
  member : v ∈ ctx.visits d
  read : (ctx.prepare d).loaded.parsed.get? v.path = some f
  used : v.role = .mixin → (ctx.prepare d).graph.isConnected v.path = true
  verdict : v.verdict ctx (ctx.prepare d) =
    .generate ((v.before.project ctx (ctx.prepare d)).planDeclared f v.role declaration)

theorem generates_of_plan (member : v ∈ ctx.visits d) {plan : Plan}
    (verdict : v.verdict ctx (ctx.prepare d) = .generate plan) :
    ∃ f declaration, v.Generates ctx d f declaration ∧
      plan = (v.before.project ctx (ctx.prepare d)).planDeclared f v.role declaration := by
  have judged := ctx.judged_visit member
  rw [verdict] at judged
  cases judged with
  | generate read used => exact ⟨_, _, ⟨member, read, used, verdict⟩, rfl⟩

theorem Generates.emits {f : SourceFile} {declaration : Declaration}
    (generates : v.Generates ctx d f declaration) (quiet : v.faults ctx (ctx.prepare d) = [])
    (trait : v.role ≠ .model) : Emits ctx d (ctx.traitEntry v.role f) := by
  have emitted : (v.emitted ctx (ctx.prepare d)).map Artifact.outline = ctx.outlines f v.role := by
    rw [Visit.emitted, emittedOf_of_quiet (given_of_faultsOf_eq_nil quiet), v.given_artifacts,
      planned, generates.verdict]
    exact Project.outlines_planDeclared _ f v.role declaration
  have outlined {o : Outline} (listed : o ∈ ctx.outlines f v.role) :
      ∃ x ∈ ctx.emissions d, x.artifact.outline = o := by
    rw [← emitted] at listed
    obtain ⟨a, given, rfl⟩ := List.mem_map.mp listed
    exact ⟨⟨v.role, ctx.sourceOf d v, a⟩, List.mem_flatMap.mpr
      ⟨v, generates.member, List.mem_map_of_mem given⟩, rfl⟩
  have descriptor : v.role.descriptorKind = .trait := by
    cases role : v.role <;> simp_all [Role.descriptorKind]
  have types : v.role.typesKind = .traitType := by
    cases role : v.role <;> simp_all [Role.typesKind]
  constructor
  · apply outlined
    rw [Context.outlines, List.mem_map]
    exact ⟨.trait, by simp [Context.kindsOf, descriptor], by simp [Context.traitEntry, descriptor]⟩
  · intro path typed
    apply outlined
    simp only [Context.traitEntry] at typed
    split at typed
    next typeScript =>
      obtain rfl := Option.some.inj typed
      rw [Context.outlines, List.mem_map]
      exact ⟨.traitType, by simp [Context.kindsOf, typeScript, types],
        by simp [Context.traitEntry, types]⟩
    next => cases typed

end Visit

structure RunState.Sound (ctx : Context) (d : Disk) (state : RunState) : Prop where
  place : state.disk.workingDirectory = d.workingDirectory
  dry : ctx.dryRun = true → state.disk = d
  registered : ∀ p t, state.registry.get? p = some t → Emits ctx d t

section Run

variable {ctx : Context} {d : Disk} {v : Visit}

theorem Visit.after_sound (member : v ∈ ctx.visits d) (quiet : v.faults ctx (ctx.prepare d) = [])
    (sound : v.before.Sound ctx d) : (v.after ctx (ctx.prepare d)).Sound ctx d := by
  constructor
  · rw [after_disk]
    split
    · rw [ctx.giveOut_workingDirectory, sound.place]
    · exact sound.place
  · intro dry
    rw [after_disk]
    split
    · rw [Context.giveOut_dry dry, sound.dry dry]
    · exact sound.dry dry
  · intro p t held
    rcases v.after_registry with same | ⟨plan, verdict, role, added⟩
    · rw [same] at held
      exact sound.registered p t held
    · rw [added, PathMap.get?_insert] at held
      split at held
      next =>
        -- The new entry is that of the base that the visit is to.
        obtain ⟨f, declaration, generates, rfl⟩ := generates_of_plan member verdict
        rw [← Option.some.inj held, Project.entry_planDeclared]
        exact generates.emits quiet (by simp [role])
      next => exact sound.registered p t held

theorem Context.sound_visits (quiet : ∀ v ∈ ctx.visits d, v.faults ctx (ctx.prepare d) = []) :
    ∀ v ∈ ctx.visits d, v.before.Sound ctx d :=
  Visit.before_of_mem_along ⟨rfl, fun _ => rfl, fun _ _ held => nomatch held⟩
    fun v member => Visit.after_sound member (quiet v member)

theorem Context.exists_mixinVisit {mixin : Path} {g : SourceFile}
    (known : (ctx.prepare d).discovered.mixins.contains mixin = true)
    (read : (ctx.prepare d).loaded.parsed.get? mixin = some g) :
    ∃ w ∈ ctx.mixinVisits d, (mixin == w.path) = true ∧
      (ctx.prepare d).loaded.parsed.get? w.path = some g ∧ loadSource d w.path = .ok g := by
  obtain ⟨m, listed, same⟩ := List.contains_iff_exists_mem_beq.mp known
  obtain ⟨w, visit, rfl⟩ : ∃ w ∈ ctx.mixinVisits d, w.path = m := by
    rw [← List.mem_map, ctx.mixinVisits_paths]
    exact listed
  obtain ⟨-, -, load⟩ := Visit.read_of_mem_mixinVisits visit
  rw [PathMap.get?_congr _ same] at read
  exact ⟨w, visit, same, read, loadSource_toOption_eq_some.mp (load.symm.trans read)⟩

namespace Visit.Generates

variable {f : SourceFile} {declaration : Declaration}

theorem isCanonical (generates : v.Generates ctx d f declaration) (names : d.ProperNames) :
    f.path.IsCanonical :=
  (ctx.prepare_keyed d v.path f generates.read).2 names

theorem isConnected (generates : v.Generates ctx d f declaration) {mixin : Path}
    (listed : mixin ∈ (ctx.discover d).mixins) (imports : ImportsMixin ctx d f mixin) :
    (ctx.prepare d).graph.isConnected mixin = true := by
  have absolute := (ctx.prepare_keyed_isAbsolute d v.path f generates.read).2
  by_cases role : v.role = .mixin
  · have own := Context.mem_mixins_of_mixinVisit
      (List.mem_filter.mpr ⟨generates.member, decide_eq_true role⟩)
    exact ctx.connected_of_mixin d (List.elem_eq_true_of_mem own) (generates.used role)
      generates.read absolute listed imports
  · have own : v.path ∈ (ctx.prepare d).intermediates ++ (ctx.prepare d).plainModels := by
      rw [← ctx.modelVisits_paths]
      exact List.mem_map_of_mem (List.mem_filter.mpr ⟨generates.member, decide_eq_true role⟩)
    have model : ((ctx.discover d).models ++ (ctx.prepare d).intermediates.filter fun p =>
        !(ctx.discover d).models.contains p).contains v.path = true := by
      rw [List.contains_append, Path.contains_filter
        (fun _ _ same => by rw [List.contains_congr same])]
      rcases List.mem_append.mp own with base | plain
      · have held : (ctx.prepare d).intermediates.contains v.path = true :=
          List.elem_eq_true_of_mem base
        rw [held]
        cases (ctx.discover d).models.contains v.path <;> rfl
      · have held : (ctx.discover d).models.contains v.path = true :=
          List.elem_eq_true_of_mem (List.mem_of_mem_filter plain)
        rw [held, Bool.true_or]
    exact ctx.connected_of_model d model generates.read absolute listed (.inl imports)

-- A mixin is resolved on the disk as it is at the time, and still to the path that it was read
-- under.
theorem path_of_resolved (generates : v.Generates ctx d f declaration) (names : d.ProperNames)
    (quiet : ∀ v ∈ ctx.visits d, v.faults ctx (ctx.prepare d) = []) {specifier : String}
    {mixin : Path} {g : SourceFile}
    (resolved : ctx.resolveMixin? v.before.disk specifier f.path = some mixin)
    (read : (ctx.prepare d).loaded.parsed.get? mixin = some g) : mixin = g.path := by
  have start : Place.IsProper v.before.disk.workingDirectory := by
    rw [(Context.sound_visits quiet v generates.member).place]
    exact names.workingDirectory
  obtain ⟨same, canonical⟩ := ctx.prepare_keyed d mixin g read
  have found := (Option.filter_eq_some_iff.mp resolved).1
  exact (Context.resolve?_isCanonical start found).eq_of_beq (canonical names) (BEq.symm same)

theorem trait_of_mixin (generates : v.Generates ctx d f declaration) (names : d.ProperNames)
    (quiet : ∀ v ∈ ctx.visits d, v.faults ctx (ctx.prepare d) = []) {name : String}
    {t : TraitEntry}
    (found : (v.before.project ctx (ctx.prepare d)).mixinTrait? f name = some t) :
    Emits ctx d t ∨ Omits ctx d t := by
  obtain ⟨i, imported, mixin, g, resolved, known, read, entry⟩ := Project.mixinTrait?_eq_some found
  rw [entry (generates.path_of_resolved names quiet resolved read)]
  obtain ⟨w, visit, same, read, loaded⟩ := Context.exists_mixinVisit known read
  obtain ⟨member, role, -⟩ := Visit.read_of_mem_mixinVisits visit
  have judged := ctx.judged_visit member
  have outcome : w.outcome ctx (ctx.prepare d) = _ := w.outcome_eq
  cases verdict : w.verdict ctx (ctx.prepare d) with
  | unread =>
    rw [verdict] at judged
    cases judged with
    | unread lost => cases lost.symm.trans read
  | skip reason =>
    rw [verdict] at judged outcome
    refine .inr ⟨w, visit, g, loaded, rfl, outcome, fun dry => ?_⟩
    cases judged with
    | unconnected _ _ unused =>
      -- The disk has not changed, so the import was seen when the graph was made.
      have before : ctx.resolveMixin? d i.specifier f.path = some mixin := by
        rw [← (Context.sound_visits quiet v generates.member).dry dry]
        exact resolved
      have used := generates.isConnected (Context.mem_mixins_of_mixinVisit visit)
        ⟨i, imported, mixin, before, same⟩
      cases unused.symm.trans used
    | undeclared read' _ bare =>
      obtain rfl := Option.some.inj (read'.symm.trans read)
      exact bare
  | generate plan =>
    obtain ⟨file, declared, own, -⟩ := generates_of_plan member verdict
    obtain rfl := Option.some.inj (own.read.symm.trans read)
    have emits := own.emits (quiet w member) (by simp [role])
    rw [role] at emits
    exact .inl emits

theorem trait_of_composition (generates : v.Generates ctx d f declaration) (names : d.ProperNames)
    (quiet : ∀ v ∈ ctx.visits d, v.faults ctx (ctx.prepare d) = []) {t : TraitEntry}
    (member : t ∈ (v.before.project ctx (ctx.prepare d)).traitsOf f v.role declaration.mixins) :
    Emits ctx d t ∨ Omits ctx d t := by
  rcases Project.mem_traitsOf member with base | ⟨name, -, found⟩
  · simp only [Project.baseTrait?, Option.bind_eq_bind, Option.bind_eq_some_iff] at base
    obtain ⟨p, -, _, -, registered⟩ := base
    exact .inl ((Context.sound_visits quiet v generates.member).registered p t registered)
  · exact generates.trait_of_mixin names quiet found

end Visit.Generates

theorem Context.generates_of_emission {x : Emission} (member : x ∈ ctx.emissions d) :
    ∃ (v : Visit) (f : SourceFile) (declaration : Declaration),
      v.Generates ctx d f declaration ∧ x.role = v.role ∧ x.source = f.path ∧
      x.artifact ∈
        ((v.before.project ctx (ctx.prepare d)).planDeclared f v.role declaration).artifacts := by
  obtain ⟨v, visit, given⟩ := List.mem_flatMap.mp member
  obtain ⟨a, emitted, rfl⟩ := List.mem_map.mp given
  have planned : a ∈ v.planned ctx (ctx.prepare d) := by
    rw [← v.given_artifacts]
    exact (emittedOf_sublist _).subset emitted
  rw [Visit.planned] at planned
  split at planned
  next plan verdict =>
    obtain ⟨f, declaration, generates, rfl⟩ := Visit.generates_of_plan visit verdict
    exact ⟨v, f, declaration, generates, rfl, by simp [sourceOf, generates.read], planned⟩
  next => cases planned

theorem Context.emission_placed (names : d.ProperNames) {x : Emission}
    (member : x ∈ ctx.emissions d) : x.Placed ctx ∧ x.source.IsSettled := by
  obtain ⟨v, f, declaration, generates, -, source, -⟩ := generates_of_emission member
  obtain ⟨w, visit, given⟩ := List.mem_flatMap.mp member
  obtain ⟨a, emitted, rfl⟩ := List.mem_map.mp given
  refine ⟨(emitted_placed visit).1 a emitted, ?_⟩
  rw [source]
  exact (generates.isCanonical names).isSettled

theorem interface_placed (names : d.ProperNames) {t : TraitEntry} {path : Path}
    (comes : Emits ctx d t ∨ Omits ctx d t) (typed : t.typesPath = some path) :
    ∃ y : Emission, y.Placed ctx ∧ y.source.IsSettled ∧ y.artifact.kind = .traitType ∧
      y.artifact.path = path := by
  rcases comes with emits | ⟨w, visit, g, loaded, rfl, -⟩
  · obtain ⟨y, member, outline⟩ := emits.interface path typed
    obtain ⟨placed, settled⟩ := Context.emission_placed names member
    exact ⟨y, placed, settled, congrArg Outline.kind outline, congrArg Outline.path outline⟩
  · -- No file is given out here, but its place is known all the same.
    have mixin := Context.mem_mixins_of_mixinVisit visit
    have settled : g.path.IsSettled := by
      rw [loadSource_path loaded]
      exact (Context.discover_isCanonical names (List.mem_append_right _ mixin)).isSettled
    simp only [Context.traitEntry] at typed
    split at typed
    next =>
      exact ⟨⟨.mixin, g.path, ⟨.traitType, "", "", path⟩⟩,
        ⟨nofun, (Option.some.inj typed).symm⟩, settled, rfl, rfl⟩
    next => cases typed

end Run

theorem references_lead {d : Disk} {config : Config} {ctx : Context}
    (built : Context.ofConfig d config = .ok ctx) (names : d.ProperNames)
    (quiet : ∀ m ∈ (migrate ctx d).2.diagnostics, m.code? ≠ some writeFailed) :
    (migrate ctx d).2.artifacts.map (fun r => (r.kind, r.name, r.path)) =
      (ctx.emissions d).map (fun x =>
        (x.artifact.kind, x.artifact.name, ctx.display x.artifact.path)) ∧
    ∀ x ∈ ctx.emissions d, ∃ fields traits, x.Refers ctx d fields traits := by
  refine ⟨artifacts_eq_emissions ctx d, ?_⟩
  intro x member
  have outputs := Context.ofConfig_outputRoot built names.workingDirectory
  have written := Context.quiet_of_report quiet
  obtain ⟨placed, settled⟩ := Context.emission_placed names member
  obtain ⟨v, f, declaration, generates, role, -, planned⟩ := Context.generates_of_emission member
  obtain ⟨descriptor, types⟩ := Project.planDeclared_code planned
  refine ⟨f.fields, (v.before.project ctx (ctx.prepare d)).traitsOf f v.role declaration.mixins,
    role ▸ descriptor, role ▸ types, ?_, ?_⟩
  · exact fun t composed => generates.trait_of_composition names written composed
  intro t composed i imported
  have comes := generates.trait_of_composition names written composed
  obtain ⟨path, typed, rfl⟩ := Option.map_eq_some_iff.mp imported
  obtain ⟨y, target, settled', kind, rfl⟩ := interface_placed names comes typed
  refine ⟨y.artifact.path, typed, ?_⟩
  dsimp only
  exact placed.specifier_leads outputs settled target settled' (by simp [kind])

def typedDisk : Disk where
  entries := [
    (["m"], .directory),
    (["m", "user.ts"], .file "import T from '../x/tag';export default M.extend(T)".toUTF8),
    (["x"], .directory),
    (["x", "tag.ts"], .file "export default M.create()".toUTF8)]
  workingDirectory := []

theorem typed_properNames : typedDisk.ProperNames := by
  constructor <;> simp only [Place.IsProper] <;> decide +kernel

theorem typed_report :
    ((Context.ofConfig typedDisk plainConfig).toOption.any fun ctx =>
      let report := (migrate ctx typedDisk).2
      report.diagnostics.all (·.code? != some writeFailed) &&
        report.artifacts.map (fun r => (r.kind, r.name)) ==
          [(.trait, "user"), (.traitType, "user"), (.trait, "tag"), (.traitType, "tag")]) =
      true := by
  decide +kernel

theorem references_lead_typed :
    ∃ ctx, Context.ofConfig typedDisk plainConfig = .ok ctx ∧ typedDisk.ProperNames ∧
      (∀ m ∈ (migrate ctx typedDisk).2.diagnostics, m.code? ≠ some writeFailed) ∧
      (migrate ctx typedDisk).2.artifacts.map (fun r => (r.kind, r.name)) =
        [(.trait, "user"), (.traitType, "user"), (.trait, "tag"), (.traitType, "tag")] ∧
      ∀ x ∈ ctx.emissions typedDisk, ∃ fields traits, x.Refers ctx typedDisk fields traits := by
  obtain ⟨ctx, built, checked⟩ := Context.exists_ofConfig typed_report
  rw [Bool.and_eq_true, beq_iff_eq] at checked
  have quiet : ∀ m ∈ (migrate ctx typedDisk).2.diagnostics, m.code? ≠ some writeFailed := by
    simpa using checked.1
  exact ⟨ctx, built, typed_properNames, quiet, checked.2,
    (references_lead built typed_properNames quiet).2⟩

def bareDisk : Disk where
  entries := [
    (["m"], .directory),
    (["m", "user.js"], .file "import T from '../x/tag';export default M.extend(T)".toUTF8),
    (["x"], .directory),
    (["x", "tag.js"], .file "".toUTF8)]
  workingDirectory := []

theorem bare_report :
    ((Context.ofConfig bareDisk plainConfig).toOption.any fun ctx =>
      let (after, report) := migrate ctx bareDisk
      report.diagnostics.all (·.code? != some writeFailed) &&
        (report.artifacts.map fun r => (r.kind, r.name)) == [(.trait, "user")] &&
        (after.readText ⟨"/app/data/traits/user.schema.js"⟩).toOption ==
          some (Role.intermediate.descriptorSource ⟨"user", [], ["tag"], none⟩)) = true := by
  decide +kernel

theorem references_lead_bare :
    ∃ ctx, Context.ofConfig bareDisk plainConfig = .ok ctx ∧
      (∀ m ∈ (migrate ctx bareDisk).2.diagnostics, m.code? ≠ some writeFailed) ∧
      ((migrate ctx bareDisk).1.readText ⟨"/app/data/traits/user.schema.js"⟩).toOption =
        some (Role.intermediate.descriptorSource ⟨"user", [], ["tag"], none⟩) ∧
      ∀ r ∈ (migrate ctx bareDisk).2.artifacts, (r.kind, r.name) ≠ (.trait, "tag") := by
  obtain ⟨ctx, built, checked⟩ := Context.exists_ofConfig bare_report
  simp only [Bool.and_eq_true, beq_iff_eq] at checked
  obtain ⟨⟨quiet, artifacts⟩, listed⟩ := checked
  refine ⟨ctx, built, by simpa using quiet, listed, fun r given => ?_⟩
  have only : (r.kind, r.name) ∈ [(ArtifactKind.trait, "user")] := by
    rw [← artifacts]
    exact List.mem_map_of_mem given
  rw [List.mem_singleton.mp only]
  decide

end SchemaMigration
