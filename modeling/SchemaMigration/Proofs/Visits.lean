import Mathlib.Data.List.Basic
import SchemaMigration.Proofs.Loading

set_option autoImplicit false

namespace SchemaMigration

open RunState

def Prepared.agenda (prepared : Prepared) : List (Role × Path) :=
  prepared.intermediates.map (Prod.mk .intermediate) ++ prepared.plainModels.map (Prod.mk .model)
    ++ prepared.discovered.mixins.map (Prod.mk .mixin)

-- Gives out generated files one after the other. The answer is the disk afterwards, and for each
-- file why it could not be written, if so.
def Context.giveOut (ctx : Context) (d : Disk) :
    List Artifact → Disk × List (Artifact × Option DiskError)
  | [] => (d, [])
  | a :: rest =>
    let (next, fault?) := if ctx.dryRun then (d, none) else d.writeArtifact a
    let (last, given) := ctx.giveOut next rest
    (last, (a, fault?) :: given)

@[simp] theorem Context.giveOut_artifacts (ctx : Context) (d : Disk) (artifacts : List Artifact) :
    (ctx.giveOut d artifacts).2.map Prod.fst = artifacts := by
  induction artifacts generalizing d with
  | nil => rfl
  | cons a rest ih => simp [giveOut, ih]

theorem Context.giveOut_dry {ctx : Context} (dry : ctx.dryRun = true) (d : Disk)
    (artifacts : List Artifact) :
    ctx.giveOut d artifacts = (d, artifacts.map fun a => (a, none)) := by
  induction artifacts with
  | nil => rfl
  | cons a rest ih => simp [giveOut, dry, ih]

def emittedOf (given : List (Artifact × Option DiskError)) : List Artifact :=
  (given.filter fun g => g.2.isNone).map Prod.fst

def faultsOf (given : List (Artifact × Option DiskError)) (shown : String) : List Diagnostic :=
  given.filterMap fun g => g.2.map (writeDiagnostic shown g.1)

theorem emittedOf_sublist (given : List (Artifact × Option DiskError)) :
    (emittedOf given).Sublist (given.map Prod.fst) :=
  List.filter_sublist.map _

inductive Verdict where
  | unread
  | skip (reason : SkipReason)
  | generate (plan : Plan)

structure Visit where
  role : Role
  path : Path
  before : RunState

namespace Visit

section Parts

variable (v : Visit) (ctx : Context) (prepared : Prepared)

def result : RunState × Outcome :=
  match v.role with
  | .mixin => v.before.migrateMixin ctx prepared v.path
  | role => v.before.migrateFile ctx prepared role v.path

def after : RunState := (v.result ctx prepared).1

def outcome : Outcome := (v.result ctx prepared).2

def fileVerdict : Verdict :=
  match prepared.loaded.parsed.get? v.path with
  | none => .unread
  | some f =>
    match (v.before.project ctx prepared).plan f v.role with
    | .error reason => .skip reason
    | .ok plan => .generate plan

def verdict : Verdict :=
  if v.role = .mixin ∧ prepared.loaded.failed.contains v.path = true then .unread
  else if v.role = .mixin ∧ prepared.graph.isConnected v.path = false then .skip .notConnected
  else v.fileVerdict ctx prepared

def carriedOut : Verdict → RunState × Outcome
  | .unread => (v.before, .failed)
  | .skip reason => (v.before.note [.skipped (ctx.display v.path) reason], .skipped)
  | .generate plan => v.before.carryOut ctx v.path v.role plan

def given : List (Artifact × Option DiskError) :=
  match v.verdict ctx prepared with
  | .generate plan => (ctx.giveOut v.before.disk plan.artifacts).2
  | _ => []

def emitted : List Artifact := emittedOf (v.given ctx prepared)

def faults : List Diagnostic := faultsOf (v.given ctx prepared) (ctx.display v.path)

def told : List Diagnostic :=
  match v.verdict ctx prepared with
  | .unread => []
  | .skip reason => [.skipped (ctx.display v.path) reason]
  | .generate plan => plan.diagnostics ++ v.faults ctx prepared

end Parts

end Visit

namespace RunState

variable {ctx : Context} {state : RunState}

theorem foldl_emit (source : Path) (artifacts : List Artifact) (failed : Bool) :
    artifacts.foldl (emit ctx source) (state, failed) =
      let (disk, given) := ctx.giveOut state.disk artifacts
      ({ state with
          disk
          artifacts := state.artifacts ++ (emittedOf given).map (recordOf ctx source)
          diagnostics := state.diagnostics ++ faultsOf given (ctx.display source) },
        failed || given.any fun g => g.2.isSome) := by
  induction artifacts generalizing state failed with
  | nil => simp [Context.giveOut, emittedOf, faultsOf]
  | cons a rest ih =>
    by_cases dry : ctx.dryRun = true
    · simp [emit, dry, ih, addRecord, Context.giveOut, emittedOf, faultsOf]
    · rcases written : state.disk.writeArtifact a with ⟨disk, _ | fault⟩
      · simp [emit, dry, written, ih, addRecord, Context.giveOut, emittedOf, faultsOf]
      · simp [emit, dry, written, ih, note, Context.giveOut, emittedOf, faultsOf]

theorem carryOut_eq (p : Path) (role : Role) (plan : Plan) :
    state.carryOut ctx p role plan =
      let (disk, given) := ctx.giveOut state.disk plan.artifacts
      let next : RunState :=
        { state with
          disk
          artifacts := state.artifacts ++ (emittedOf given).map (recordOf ctx p)
          diagnostics :=
            state.diagnostics ++ (plan.diagnostics ++ faultsOf given (ctx.display p)) }
      if given.any (fun g => g.2.isSome) then (next, .failed)
      else (next.register role p plan.entry, .processed) := by
  simp only [carryOut, foldl_emit, note, Bool.false_or, List.append_assoc]
  cases (ctx.giveOut state.disk plan.artifacts).2.any fun g => g.2.isSome <;> rfl

@[simp] theorem register_artifacts (role : Role) (p : Path) (entry : TraitEntry) :
    (state.register role p entry).artifacts = state.artifacts := by
  rw [register]
  split <;> rfl

@[simp] theorem register_diagnostics (role : Role) (p : Path) (entry : TraitEntry) :
    (state.register role p entry).diagnostics = state.diagnostics := by
  rw [register]
  split <;> rfl

@[simp] theorem register_disk (role : Role) (p : Path) (entry : TraitEntry) :
    (state.register role p entry).disk = state.disk := by
  rw [register]
  split <;> rfl

end RunState

namespace Visit

variable {ctx : Context} {prepared : Prepared}

theorem migrateFile_eq (v : Visit) (ctx : Context) (prepared : Prepared) :
    v.before.migrateFile ctx prepared v.role v.path =
      v.carriedOut ctx (v.fileVerdict ctx prepared) := by
  rw [migrateFile, fileVerdict]
  cases prepared.loaded.parsed.get? v.path with
  | none => rfl
  | some f =>
    cases planned : (v.before.project ctx prepared).plan f v.role <;> simp [carriedOut, planned]

theorem result_eq (v : Visit) :
    v.result ctx prepared = v.carriedOut ctx (v.verdict ctx prepared) := by
  have file := v.migrateFile_eq ctx prepared
  cases role : v.role with
  | model | intermediate => simpa [result, verdict, role] using file
  | mixin =>
    rw [role] at file
    by_cases failed : prepared.loaded.failed.contains v.path = true
    · simp [result, verdict, carriedOut, role, migrateMixin, failed]
    · by_cases connected : prepared.graph.isConnected v.path = true
      · simpa [result, verdict, role, migrateMixin, failed, connected] using file
      · simp [result, verdict, carriedOut, role, migrateMixin, failed, connected]

inductive Judged (v : Visit) (ctx : Context) (prepared : Prepared) : Verdict → Prop where
  | unread (lost : prepared.loaded.parsed.get? v.path = none) : Judged v ctx prepared .unread
  | unconnected {f : SourceFile} (read : prepared.loaded.parsed.get? v.path = some f)
      (role : v.role = .mixin) (unused : prepared.graph.isConnected v.path = false) :
      Judged v ctx prepared (.skip .notConnected)
  | undeclared {f : SourceFile} (read : prepared.loaded.parsed.get? v.path = some f)
      (used : v.role = .mixin → prepared.graph.isConnected v.path = true)
      (bare : f.declaration = none) : Judged v ctx prepared (.skip .noDeclaration)
  | generate {f : SourceFile} {declaration : Declaration}
      (read : prepared.loaded.parsed.get? v.path = some f)
      (used : v.role = .mixin → prepared.graph.isConnected v.path = true)
      (declared : f.declaration = some declaration) :
      Judged v ctx prepared
        (.generate ((v.before.project ctx prepared).planDeclared f v.role declaration))

theorem judged_verdict (v : Visit) (ctx : Context)
    (lost : v.role = .mixin →
      (prepared.loaded.failed.contains v.path = true ↔
        prepared.loaded.parsed.get? v.path = none)) :
    v.Judged ctx prepared (v.verdict ctx prepared) := by
  have file (used : v.role = .mixin → prepared.graph.isConnected v.path = true) :
      v.Judged ctx prepared (v.fileVerdict ctx prepared) := by
    rw [fileVerdict]
    cases read : prepared.loaded.parsed.get? v.path with
    | none => exact .unread read
    | some f =>
      cases declared : f.declaration with
      | none => simpa [Project.plan, declared] using .undeclared read used declared
      | some declaration => simpa [Project.plan, declared] using .generate read used declared
  rw [verdict]
  split
  next failed => exact .unread ((lost failed.1).mp failed.2)
  next kept =>
    split
    next unused =>
      cases read : prepared.loaded.parsed.get? v.path with
      | none => exact absurd ⟨unused.1, (lost unused.1).mpr read⟩ kept
      | some f => exact .unconnected read unused.1 unused.2
    next used =>
      refine file fun role => ?_
      simpa [role] using used

theorem outcome_eq (v : Visit) :
    v.outcome ctx prepared =
      match v.verdict ctx prepared with
      | .unread => .failed
      | .skip _ => .skipped
      | .generate _ =>
        if (v.given ctx prepared).any (fun g => g.2.isSome) then .failed else .processed := by
  rw [outcome, result_eq, given]
  cases v.verdict ctx prepared with
  | unread | skip => rfl
  | generate plan =>
    simp only [carriedOut, carryOut_eq]
    split <;> rfl

theorem after_artifacts (v : Visit) :
    (v.after ctx prepared).artifacts =
      v.before.artifacts ++ (v.emitted ctx prepared).map (recordOf ctx v.path) := by
  rw [after, result_eq, emitted, given]
  cases v.verdict ctx prepared with
  | unread => simp [carriedOut, emittedOf]
  | skip reason => simp [carriedOut, emittedOf, note]
  | generate plan =>
    simp only [carriedOut, carryOut_eq]
    split <;> simp

theorem after_diagnostics (v : Visit) :
    (v.after ctx prepared).diagnostics = v.before.diagnostics ++ v.told ctx prepared := by
  rw [after, result_eq, told, faults, given]
  cases v.verdict ctx prepared with
  | unread => simp [carriedOut]
  | skip reason => simp [carriedOut, note]
  | generate plan =>
    simp only [carriedOut, carryOut_eq]
    split <;> simp

theorem after_disk (v : Visit) :
    (v.after ctx prepared).disk =
      match v.verdict ctx prepared with
      | .generate plan => (ctx.giveOut v.before.disk plan.artifacts).1
      | _ => v.before.disk := by
  rw [after, result_eq]
  cases v.verdict ctx prepared with
  | unread | skip => rfl
  | generate plan =>
    simp only [carriedOut, carryOut_eq]
    split <;> simp

-- Only a base of models whose files were all written is kept in the registry.
theorem after_registry (v : Visit) :
    (v.after ctx prepared).registry = v.before.registry ∨
      ∃ plan, v.verdict ctx prepared = .generate plan ∧ v.role = .intermediate ∧
        (v.after ctx prepared).registry = v.before.registry.insert v.path plan.entry := by
  rw [after, result_eq]
  cases v.verdict ctx prepared with
  | unread | skip => exact .inl rfl
  | generate plan =>
    simp only [carriedOut, carryOut_eq]
    split
    · exact .inl rfl
    · rw [register]
      split
      next base => exact .inr ⟨plan, rfl, beq_iff_eq.mp base, rfl⟩
      next => exact .inl rfl

def along (ctx : Context) (prepared : Prepared) : RunState → List (Role × Path) → List Visit
  | _, [] => []
  | state, (role, p) :: rest =>
    let v : Visit := ⟨role, p, state⟩
    v :: along ctx prepared (v.after ctx prepared) rest

def final (ctx : Context) (prepared : Prepared) (state : RunState) (agenda : List (Role × Path)) :
    RunState :=
  agenda.foldl (fun state (role, p) => Visit.after ⟨role, p, state⟩ ctx prepared) state

theorem along_append (state : RunState) (first second : List (Role × Path)) :
    along ctx prepared state (first ++ second) =
      along ctx prepared state first ++
        along ctx prepared (final ctx prepared state first) second := by
  induction first generalizing state with
  | nil => rfl
  | cons entry rest ih => simpa [along, final] using ih _

theorem final_append (state : RunState) (first second : List (Role × Path)) :
    final ctx prepared state (first ++ second) =
      final ctx prepared (final ctx prepared state first) second :=
  List.foldl_append

theorem along_entries (ctx : Context) (prepared : Prepared) (state : RunState)
    (agenda : List (Role × Path)) :
    (along ctx prepared state agenda).map (fun v => (v.role, v.path)) = agenda := by
  induction agenda generalizing state with
  | nil => rfl
  | cons entry rest ih => simp [along, ih]

theorem before_of_mem_along {Holds : RunState → Prop} {state : RunState}
    {agenda : List (Role × Path)} (start : Holds state)
    (step : ∀ v ∈ along ctx prepared state agenda, Holds v.before → Holds (v.after ctx prepared)) :
    ∀ v ∈ along ctx prepared state agenda, Holds v.before := by
  induction agenda generalizing state with
  | nil => intro v member; cases member
  | cons entry rest ih =>
    intro v member
    rw [along, List.forall_mem_cons] at step
    rcases List.mem_cons.mp member with rfl | later
    · exact start
    · exact ih (step.1 start) step.2 v later

theorem final_eq_append {α : Type} {kept : RunState → List α} {added : Visit → List α}
    (step : ∀ v : Visit, kept (v.after ctx prepared) = kept v.before ++ added v)
    (state : RunState) (agenda : List (Role × Path)) :
    kept (final ctx prepared state agenda) =
      kept state ++ (along ctx prepared state agenda).flatMap added := by
  induction agenda generalizing state with
  | nil => simp [final, along]
  | cons entry rest ih =>
    have later := ih (Visit.after ⟨entry.1, entry.2, state⟩ ctx prepared)
    rw [step] at later
    simpa [final, along] using later

theorem final_artifacts (state : RunState) (agenda : List (Role × Path)) :
    (final ctx prepared state agenda).artifacts =
      state.artifacts ++ (along ctx prepared state agenda).flatMap fun v =>
        (v.emitted ctx prepared).map (recordOf ctx v.path) :=
  final_eq_append after_artifacts state agenda

theorem final_diagnostics (state : RunState) (agenda : List (Role × Path)) :
    (final ctx prepared state agenda).diagnostics =
      state.diagnostics ++ (along ctx prepared state agenda).flatMap (·.told ctx prepared) :=
  final_eq_append after_diagnostics state agenda

theorem forEach_eq (role : Role) {step : RunState → Path → RunState × Outcome}
    (same : ∀ state p, step state p = Visit.result ⟨role, p, state⟩ ctx prepared)
    (state : RunState) (paths : List Path) :
    forEach step state paths =
      (final ctx prepared state (paths.map (Prod.mk role)),
        (along ctx prepared state (paths.map (Prod.mk role))).map (·.outcome ctx prepared)) := by
  induction paths generalizing state with
  | nil => rfl
  | cons p rest ih => simp [forEach, same, ih, final, along, after, outcome]

theorem role_of_mem_along {role : Role} {state : RunState} {paths : List Path} {v : Visit}
    (member : v ∈ along ctx prepared state (paths.map (Prod.mk role))) : v.role = role := by
  have entry : (v.role, v.path) ∈ paths.map (Prod.mk role) := by
    rw [← along_entries ctx prepared state (paths.map (Prod.mk role))]
    exact List.mem_map.mpr ⟨v, member, rfl⟩
  obtain ⟨p, -, same⟩ := List.mem_map.mp entry
  exact (congrArg Prod.fst same).symm

end Visit

namespace Context

variable (ctx : Context) (d : Disk)

def visits : List Visit :=
  Visit.along ctx (ctx.prepare d) (start d (ctx.prepare d)) (ctx.prepare d).agenda

def modelVisits : List Visit :=
  (ctx.visits d).filter fun v => v.role ≠ .mixin

def mixinVisits : List Visit :=
  (ctx.visits d).filter fun v => v.role = .mixin

def lastState : RunState :=
  Visit.final ctx (ctx.prepare d) (start d (ctx.prepare d)) (ctx.prepare d).agenda

theorem visits_entries :
    (ctx.visits d).map (fun v => (v.role, v.path)) = (ctx.prepare d).agenda :=
  Visit.along_entries ctx _ _ _

variable {ctx d} in
theorem exists_visit {role : Role} {p : Path} (listed : (role, p) ∈ (ctx.prepare d).agenda) :
    ∃ v ∈ ctx.visits d, v.role = role ∧ v.path = p := by
  rw [← visits_entries, List.mem_map] at listed
  simpa using listed

theorem lastState_artifacts :
    (ctx.lastState d).artifacts = (ctx.visits d).flatMap fun v =>
      (v.emitted ctx (ctx.prepare d)).map (recordOf ctx v.path) :=
  Visit.final_artifacts _ _

theorem lastState_diagnostics :
    (ctx.lastState d).diagnostics = (ctx.prepare d).diagnostics ++
      (ctx.visits d).flatMap (·.told ctx (ctx.prepare d)) :=
  Visit.final_diagnostics _ _

theorem visits_paths (keep : Role → Bool) :
    ((ctx.visits d).filter (keep ·.role)).map Visit.path =
      ((ctx.prepare d).agenda.filter (keep ·.1)).map Prod.snd := by
  rw [← visits_entries, List.filter_map, List.map_map]
  rfl

theorem modelVisits_paths :
    (ctx.modelVisits d).map Visit.path =
      (ctx.prepare d).intermediates ++ (ctx.prepare d).plainModels := by
  rw [modelVisits, visits_paths ctx d (· ≠ .mixin), Prepared.agenda]
  simp [List.filter_map, Function.comp_def]

theorem mixinVisits_paths : (ctx.mixinVisits d).map Visit.path = (ctx.discover d).mixins := by
  rw [mixinVisits, visits_paths ctx d (· = .mixin), Prepared.agenda]
  simp [List.filter_map, Function.comp_def, prepare]

variable {ctx d} in
theorem mem_mixins_of_mixinVisit {v : Visit} (member : v ∈ ctx.mixinVisits d) :
    v.path ∈ (ctx.discover d).mixins := by
  rw [← mixinVisits_paths]
  exact List.mem_map_of_mem member

variable {ctx d} in
theorem mem_filesRead_of_mixinVisit {v : Visit} (member : v ∈ ctx.mixinVisits d) :
    v.path ∈ ctx.filesRead d := by
  exact List.mem_append_left _ (List.mem_append_right _ (mem_mixins_of_mixinVisit member))

variable {ctx d} in
theorem judged_visit {v : Visit} (member : v ∈ ctx.visits d) :
    v.Judged ctx (ctx.prepare d) (v.verdict ctx (ctx.prepare d)) := by
  refine v.judged_verdict ctx fun role => ?_
  have listed := mem_filesRead_of_mixinVisit (List.mem_filter.mpr ⟨member, decide_eq_true role⟩)
  rw [(ctx.prepare_reads d).get?_of_mem (ctx.filesRead_distinct d) listed,
    (ctx.prepare_reads d).failed_of_mem (ctx.filesRead_distinct d) listed,
    loadSource_toOption_eq_none]

end Context

theorem migrate_eq_visits (ctx : Context) (d : Disk) :
    let outcomes (visits : List Visit) := visits.map (·.outcome ctx (ctx.prepare d))
    let models := Counters.ofOutcomes (outcomes (ctx.modelVisits d))
    let mixins := Counters.ofOutcomes (outcomes (ctx.mixinVisits d))
    migrate ctx d =
      ((ctx.lastState d).disk,
        { dryRun := ctx.dryRun
          models
          mixins
          total := models.add mixins
          artifacts := (ctx.lastState d).artifacts
          graph := GraphSummary.ofGraph ctx (ctx.prepare d).graph (ctx.prepare d).discovered.mixins
          diagnostics := Diagnostic.sort (ctx.lastState d).diagnostics }) := by
  let prepared := ctx.prepare d
  -- The visits of the three passes, of which the last one alone is to mixins.
  let bases := prepared.intermediates.map (Prod.mk Role.intermediate)
  let models := prepared.plainModels.map (Prod.mk Role.model)
  let mixins := prepared.discovered.mixins.map (Prod.mk Role.mixin)
  let first := start d prepared
  let second := Visit.final ctx prepared first bases
  let third := Visit.final ctx prepared second models
  have visits : ctx.visits d = Visit.along ctx prepared first bases ++
      Visit.along ctx prepared second models ++ Visit.along ctx prepared third mixins := by
    rw [Context.visits, Prepared.agenda, Visit.along_append, Visit.along_append,
      Visit.final_append]
  have last : ctx.lastState d = Visit.final ctx prepared third mixins := by
    rw [Context.lastState, Prepared.agenda, Visit.final_append, Visit.final_append]
  have others : ctx.modelVisits d = Visit.along ctx prepared first bases ++
      Visit.along ctx prepared second models := by
    rw [Context.modelVisits, visits, List.filter_append, List.filter_append,
      List.filter_eq_self.mpr, List.filter_eq_self.mpr, List.filter_eq_nil_iff.mpr,
      List.append_nil]
    all_goals
      intro v member
      simp [Visit.role_of_mem_along member]
  have own : ctx.mixinVisits d = Visit.along ctx prepared third mixins := by
    rw [Context.mixinVisits, visits, List.filter_append, List.filter_append,
      List.filter_eq_nil_iff.mpr, List.filter_eq_nil_iff.mpr, List.filter_eq_self.mpr,
      List.nil_append, List.nil_append]
    all_goals
      intro v member
      simp [Visit.role_of_mem_along member]
  have ofBases := Visit.forEach_eq .intermediate (fun state p =>
    (rfl : state.migrateFile ctx prepared .intermediate p = _)) first prepared.intermediates
  have ofModels := Visit.forEach_eq .model (fun state p =>
    (rfl : state.migrateFile ctx prepared .model p = _)) second prepared.plainModels
  have ofMixins := Visit.forEach_eq .mixin (fun state p =>
    (rfl : state.migrateMixin ctx prepared p = _)) third prepared.discovered.mixins
  simp only [others, own, last, List.map_append]
  simp only [migrate, ofBases, ofModels, ofMixins, first, second, third, bases, models, mixins,
    prepared]

end SchemaMigration
