import Mathlib.Data.Set.Card
import SchemaMigration.Command.Basic
import SchemaMigration.Proofs.Visits

set_option autoImplicit false

namespace SchemaMigration

namespace Counters

def files (c : Counters) : Nat := c.processed + c.skipped + c.errors

theorem ofOutcomes_eq (outcomes : List Outcome) :
    ofOutcomes outcomes =
      ⟨outcomes.count .processed, outcomes.count .skipped, outcomes.count .failed⟩ := by
  have aux (outcomes : List Outcome) (c : Counters) :
      outcomes.foldl record c = c.add
        ⟨outcomes.count .processed, outcomes.count .skipped, outcomes.count .failed⟩ := by
    induction outcomes generalizing c with
    | nil => rfl
    | cons outcome rest ih =>
      cases outcome <;> simp [ih, record, add, Nat.add_assoc, Nat.add_comm 1]
  simpa [ofOutcomes, add] using aux outcomes {}

theorem files_ofOutcomes (outcomes : List Outcome) :
    (ofOutcomes outcomes).files = outcomes.length := by
  rw [ofOutcomes_eq]
  change outcomes.count .processed + outcomes.count .skipped + outcomes.count .failed = _
  induction outcomes with
  | nil => rfl
  | cons outcome rest ih => cases outcome <;> simp <;> omega

end Counters

namespace Path

theorem Distinct.ncard_components {paths : List Path} (distinct : Distinct paths) :
    (components '' {p | paths.contains p = true}).ncard = paths.length := by
  have nodup : (paths.map components).Nodup := by
    refine List.pairwise_map.mpr (distinct.imp fun apart same => ?_)
    rw [beq_iff_components.mpr same] at apart
    cases apart
  have listed : components '' {p | paths.contains p = true} =
      ((paths.map components).toFinset : Set (List Component)) := by
    ext steps
    simp only [Set.mem_image, Set.mem_ofPred_eq, List.contains_iff_exists_mem_beq,
      List.coe_toFinset, List.mem_map]
    constructor
    · rintro ⟨p, ⟨q, member, same⟩, rfl⟩
      exact ⟨q, member, (beq_iff_components.mp same).symm⟩
    · rintro ⟨p, member, rfl⟩
      exact ⟨p, ⟨p, member, BEq.rfl⟩, rfl⟩
  rw [listed, Set.ncard_coe_finset, List.toFinset_card_of_nodup nodup, List.length_map]

end Path

namespace Diagnostic

def isSkip : Diagnostic → Bool
  | .skipped _ reason => reason != .excludedByGlob
  | _ => false

def isWriteFault (m : Diagnostic) : Bool :=
  m.code? == some writeFailed

end Diagnostic

theorem mem_faultsOf {given : List (Artifact × Option DiskError)} {shown : String} {m : Diagnostic}
    (fault : m ∈ faultsOf given shown) : ∃ a e, m = RunState.writeDiagnostic shown a e := by
  obtain ⟨⟨a, e?⟩, -, same⟩ := List.mem_filterMap.mp fault
  obtain ⟨e, -, rfl⟩ := Option.map_eq_some_iff.mp same
  exact ⟨a, e, rfl⟩

theorem Project.planDeclared_warnings (project : Project) (f : SourceFile) (role : Role)
    (declaration : Declaration) :
    ∀ m ∈ (project.planDeclared f role declaration).diagnostics,
      ∃ shown message, m = .warning shown .generate extensionFailed message := by
  intro m told
  simp only [planDeclared, extensionOf] at told
  split at told
  · cases told
  · exact ⟨_, _, List.mem_singleton.mp told⟩

namespace Visit

variable {ctx : Context} {d : Disk}

def planned (v : Visit) (ctx : Context) (prepared : Prepared) : List Artifact :=
  match v.verdict ctx prepared with
  | .generate plan => plan.artifacts
  | _ => []

theorem given_artifacts (v : Visit) (ctx : Context) (prepared : Prepared) :
    (v.given ctx prepared).map Prod.fst = v.planned ctx prepared := by
  rw [given, planned]
  cases v.verdict ctx prepared <;> simp

section Outcome

variable {v : Visit} (member : v ∈ ctx.visits d)

include member

theorem failed_iff :
    v.outcome ctx (ctx.prepare d) = .failed ↔
      (ctx.prepare d).loaded.parsed.get? v.path = none ∨
        ∃ g ∈ v.given ctx (ctx.prepare d), g.2 ≠ none := by
  have judged := ctx.judged_visit member
  rw [outcome_eq, given]
  generalize v.verdict ctx (ctx.prepare d) = verdict at judged ⊢
  cases judged with
  | unread lost => simp [lost]
  | unconnected read | undeclared read => simp [read]
  | generate read => simp [read]

theorem skipped_iff :
    v.outcome ctx (ctx.prepare d) = .skipped ↔
      ∃ f, (ctx.prepare d).loaded.parsed.get? v.path = some f ∧
        (v.role = .mixin ∧ (ctx.prepare d).graph.isConnected v.path = false ∨
          f.declaration = none) := by
  have judged := ctx.judged_visit member
  rw [outcome_eq, given]
  generalize v.verdict ctx (ctx.prepare d) = verdict at judged ⊢
  cases judged with
  | unread lost => simp [lost]
  | unconnected read role unused => simp [read, role, unused]
  | undeclared read used bare => simp [read, bare]
  | generate read used declared =>
    simp only [read]
    split <;> simp_all

theorem processed_iff :
    v.outcome ctx (ctx.prepare d) = .processed ↔
      ∃ f, (ctx.prepare d).loaded.parsed.get? v.path = some f ∧
        (v.role = .mixin → (ctx.prepare d).graph.isConnected v.path = true) ∧
        f.declaration.isSome = true ∧ ∀ g ∈ v.given ctx (ctx.prepare d), g.2 = none := by
  have judged := ctx.judged_visit member
  rw [outcome_eq, given]
  generalize v.verdict ctx (ctx.prepare d) = verdict at judged ⊢
  cases judged with
  | unread lost => simp [lost]
  | unconnected read role unused => simp [read, role, unused]
  | undeclared read used bare => simp [read, bare]
  | generate read used declared => simpa [read, declared] using fun _ => used

theorem told_skips :
    (v.told ctx (ctx.prepare d)).countP Diagnostic.isSkip =
      if v.outcome ctx (ctx.prepare d) = .skipped then 1 else 0 := by
  have judged := ctx.judged_visit member
  rw [outcome_eq, told, faults, given]
  generalize v.verdict ctx (ctx.prepare d) = verdict at judged ⊢
  cases judged with
  | unread => rfl
  | unconnected | undeclared => rfl
  | generate read used declared =>
    have kept (failed : Bool) : (if failed then Outcome.failed else .processed) ≠ .skipped := by
      cases failed <;> decide
    rw [List.countP_eq_zero.mpr]
    · exact (if_neg (kept _)).symm
    · intro m told
      rcases List.mem_append.mp told with warned | fault
      · obtain ⟨shown, message, rfl⟩ := Project.planDeclared_warnings _ _ _ _ m warned
        exact Bool.false_ne_true
      · obtain ⟨a, e, rfl⟩ := mem_faultsOf fault
        exact Bool.false_ne_true

theorem told_faults :
    (v.told ctx (ctx.prepare d)).filter Diagnostic.isWriteFault = v.faults ctx (ctx.prepare d) := by
  have judged := ctx.judged_visit member
  rw [told, faults, given]
  generalize v.verdict ctx (ctx.prepare d) = verdict at judged ⊢
  cases judged with
  | unread | unconnected | undeclared => rfl
  | generate read used declared =>
    rw [List.filter_append, List.filter_eq_nil_iff.mpr, List.filter_eq_self.mpr, List.nil_append]
    · intro m fault
      obtain ⟨a, e, rfl⟩ := mem_faultsOf fault
      simp [Diagnostic.isWriteFault, RunState.writeDiagnostic, Diagnostic.code?]
    · intro m warned
      obtain ⟨shown, message, rfl⟩ := Project.planDeclared_warnings _ _ _ _ m warned
      simp [Diagnostic.isWriteFault, Diagnostic.code?, extensionFailed, writeFailed]

theorem exists_error_told :
    (∃ m ∈ v.told ctx (ctx.prepare d), m.isError = true) ↔
      ∃ g ∈ v.given ctx (ctx.prepare d), g.2 ≠ none := by
  have judged := ctx.judged_visit member
  rw [told, faults, given]
  generalize v.verdict ctx (ctx.prepare d) = verdict at judged ⊢
  cases judged with
  | unread => simp
  | unconnected | undeclared => simp [Diagnostic.isError]
  | generate read used declared =>
    constructor
    · rintro ⟨m, told, error⟩
      rcases List.mem_append.mp told with warned | fault
      · obtain ⟨shown, message, rfl⟩ := Project.planDeclared_warnings _ _ _ _ m warned
        cases error
      · obtain ⟨g, listed, same⟩ := List.mem_filterMap.mp fault
        exact ⟨g, listed, fun written => by simp [written] at same⟩
    · rintro ⟨⟨a, e?⟩, listed, unwritten⟩
      obtain ⟨e, rfl⟩ := Option.ne_none_iff_exists'.mp unwritten
      exact ⟨_, List.mem_append_right _ (List.mem_filterMap.mpr ⟨_, listed, rfl⟩), rfl⟩

end Outcome

end Visit

namespace Context

variable (ctx : Context) (d : Disk)

def IsModelFile (p : Path) : Prop :=
  (ctx.discover d).models.contains p = true ∨ ctx.IsIntermediate d p

theorem contains_modelVisits (p : Path) :
    ((ctx.modelVisits d).map Visit.path).contains p = true ↔ ctx.IsModelFile d p := by
  obtain ⟨reported, order⟩ := ctx.prepare_basesFirst d
  rw [modelVisits_paths, List.contains_append, Prepared.plainModels, Path.contains_filter
    (fun _ _ same => by rw [List.contains_congr same]), IsModelFile, ← order.member p, prepare]
  cases (ctx.discover d).models.contains p <;> simp

theorem modelVisits_distinct : Path.Distinct ((ctx.modelVisits d).map Visit.path) := by
  obtain ⟨reported, order⟩ := ctx.prepare_basesFirst d
  rw [modelVisits_paths]
  refine List.pairwise_append.mpr ⟨order.distinct, ?_, ?_⟩
  · exact (ctx.discoveredSources_distinct d).sublist
      (List.filter_sublist.trans (List.sublist_append_left _ _))
  · intro p base q plain
    rw [Bool.eq_false_iff]
    intro same
    have known := List.contains_iff_exists_mem_beq.mpr ⟨p, base, BEq.symm same⟩
    simp [Prepared.plainModels, known] at plain

theorem visits_perm : (ctx.mixinVisits d ++ ctx.modelVisits d).Perm (ctx.visits d) := by
  simpa [mixinVisits, modelVisits] using
    List.filter_append_perm (fun v : Visit => v.role = .mixin) (ctx.visits d)

theorem contains_visits (p : Path) :
    ((ctx.visits d).map Visit.path).contains p = true ↔ (ctx.filesRead d).contains p = true := by
  rw [← ((ctx.visits_perm d).map Visit.path).contains_eq, List.map_append, List.contains_append,
    mixinVisits_paths, Bool.or_eq_true, contains_modelVisits, IsModelFile, contains_filesRead,
    discoveredSources, List.contains_append, Bool.or_eq_true]
  tauto

theorem exists_unread :
    (∃ v ∈ ctx.visits d, (ctx.prepare d).loaded.parsed.get? v.path = none) ↔
      ∃ p ∈ ctx.filesRead d, loadFails d p = true := by
  have reads := ctx.prepare_reads d
  have visited := ctx.contains_visits d
  simp only [List.contains_iff_exists_mem_beq, List.mem_map] at visited
  constructor
  · rintro ⟨v, member, lost⟩
    obtain ⟨p, listed, same⟩ := (visited v.path).mp ⟨_, ⟨v, member, rfl⟩, BEq.rfl⟩
    rw [PathMap.get?_congr _ same, reads.get?_of_mem (ctx.filesRead_distinct d) listed] at lost
    exact ⟨p, listed, loadSource_toOption_eq_none.mp lost⟩
  · rintro ⟨p, listed, fails⟩
    obtain ⟨_, ⟨v, member, rfl⟩, same⟩ := (visited p).mpr ⟨p, listed, BEq.rfl⟩
    refine ⟨v, member, ?_⟩
    rw [← PathMap.get?_congr _ same, reads.get?_of_mem (ctx.filesRead_distinct d) listed]
    exact loadSource_toOption_eq_none.mpr fails

variable {ctx} in
theorem mem_edgeWarnings {parsed : PathMap SourceFile} {paths : List Path} {m : Diagnostic}
    (warned : m ∈ ctx.edgeWarnings parsed paths) : ∃ p f, m = ctx.relativePathWarning p f := by
  obtain ⟨p, -, found⟩ := List.mem_filterMap.mp warned
  cases read : parsed.get? p with
  | none => simp [read] at found
  | some f =>
    rw [read] at found
    simp only [Option.ite_none_left_eq_some, Option.some.injEq] at found
    exact ⟨p, f, found.2.symm⟩

variable {ctx d} in
theorem prepare_diagnostics_cases {m : Diagnostic} (told : m ∈ (ctx.prepare d).diagnostics) :
    (∃ p ∈ (ctx.discover d).excluded, m = .skipped (ctx.display p) .excludedByGlob) ∨
      m ∈ ctx.toldOnBases d ∨ (∃ p ∈ ctx.filesRead d, m ∈ ctx.toldOnReading d p) ∨
      ∃ p f, m = ctx.relativePathWarning p f := by
  rcases List.mem_append.mp told with early | warned
  · rcases List.mem_append.mp early with excluded | read
    · obtain ⟨p, listed, rfl⟩ := List.mem_map.mp excluded
      exact .inl ⟨p, listed, rfl⟩
    · rcases ((ctx.prepare_reads d).told m).mp read with bases | reading
      · exact .inr (.inl bases)
      · exact .inr (.inr (.inl reading))
  · -- The graph only warns of files with relative paths.
    refine .inr (.inr (.inr ?_))
    rcases List.mem_append.mp warned with model | mixin
    · exact mem_edgeWarnings model
    · exact mem_edgeWarnings mixin

variable {ctx d} in
theorem toldOnBases_cases {m : Diagnostic} (told : m ∈ ctx.toldOnBases d) :
    (∃ s ∈ ctx.intermediateModels, ctx.resolveFromRoot? d s .model = none ∧
      m = Intermediates.unresolvedDiagnostic s) ∨
    ∃ p, BaseOrder.OnCycle (ctx.ExtendsIntermediate d (ctx.prepare d).loaded.parsed) p ∧
      m = Intermediates.cycleDiagnostic ctx p := by
  rcases List.mem_append.mp told with unresolved | cyclic
  · obtain ⟨s, listed, rfl⟩ := List.mem_map.mp unresolved
    rw [Intermediates.ofContext, Intermediates.unresolved_foldl_add, List.nil_append,
      List.mem_filter, Option.isNone_iff_eq_none] at listed
    exact .inl ⟨s, listed.1, listed.2, rfl⟩
  · obtain ⟨p, broken, rfl⟩ := List.mem_map.mp cyclic
    exact .inr ⟨p, (ctx.ofContext_basesFirst d _).onCycle p broken, rfl⟩

variable {ctx d} in
theorem exists_mem_toldOnBases :
    (∃ m ∈ ctx.toldOnBases d, m.isError = true) ↔
      (∃ s ∈ ctx.intermediateModels, ctx.resolveFromRoot? d s .model = none) ∨
      ∃ p, BaseOrder.OnCycle (ctx.ExtendsIntermediate d (ctx.prepare d).loaded.parsed) p := by
  constructor
  · rintro ⟨m, told, -⟩
    rcases toldOnBases_cases told with ⟨s, listed, unresolved, -⟩ | ⟨p, cyclic, -⟩
    · exact .inl ⟨s, listed, unresolved⟩
    · exact .inr ⟨p, cyclic⟩
  · rintro (⟨s, listed, unresolved⟩ | ⟨p, cyclic⟩)
    · refine ⟨_, List.mem_append_left _ (List.mem_map_of_mem (a := s) ?_), rfl⟩
      rw [Intermediates.ofContext, Intermediates.unresolved_foldl_add, List.nil_append,
        List.mem_filter, Option.isNone_iff_eq_none]
      exact ⟨listed, unresolved⟩
    · -- Some file of the cycle is where it was broken.
      have order := ctx.ofContext_basesFirst d (ctx.prepare d).loaded.parsed
      obtain ⟨a, broken, -⟩ := (order.cycles.2 _).mp ⟨p, cyclic, rfl⟩
      exact ⟨_, List.mem_append_right _ (List.mem_map_of_mem broken), rfl⟩

def earlyCodes : List String :=
  [unresolvedIntermediate, intermediateCycle, unreadableSource, brokenSource, unsupportedSource,
    malformedField, edgeExtraction]

variable {ctx d} in
theorem prepare_code_cases {m : Diagnostic} (told : m ∈ (ctx.prepare d).diagnostics) :
    (∃ p ∈ (ctx.discover d).excluded, m = .skipped (ctx.display p) .excludedByGlob) ∨
      ∃ code ∈ earlyCodes, m.code? = some code := by
  rcases prepare_diagnostics_cases told with
    excluded | bases | ⟨p, -, reading⟩ | ⟨p, f, rfl⟩
  · exact .inl excluded
  · rcases toldOnBases_cases bases with ⟨s, -, -, rfl⟩ | ⟨p, -, rfl⟩
    · exact .inr ⟨unresolvedIntermediate, by simp [earlyCodes], rfl⟩
    · exact .inr ⟨intermediateCycle, by simp [earlyCodes], rfl⟩
  · rw [toldOnReading] at reading
    split at reading
    · obtain ⟨message, -, rfl⟩ := List.mem_map.mp reading
      exact .inr ⟨malformedField, by simp [earlyCodes], rfl⟩
    next fault _ =>
      obtain rfl := List.mem_singleton.mp reading
      refine .inr ?_
      rcases fault with _ | (_ | _)
      · exact ⟨unreadableSource, by simp [earlyCodes], rfl⟩
      · exact ⟨unsupportedSource, by simp [earlyCodes], rfl⟩
      · exact ⟨brokenSource, by simp [earlyCodes], rfl⟩
  · exact .inr ⟨edgeExtraction, by simp [earlyCodes], rfl⟩

variable {ctx d} in
theorem prepare_quiet {m : Diagnostic} (told : m ∈ (ctx.prepare d).diagnostics) :
    m.isSkip = false ∧ m.isWriteFault = false := by
  rcases prepare_code_cases told with ⟨p, -, rfl⟩ | ⟨code, early, same⟩
  · exact ⟨rfl, rfl⟩
  · have unwritten : ∀ code ∈ earlyCodes, (some code == some writeFailed) = false := by decide
    refine ⟨?_, ?_⟩
    · cases m with
      | skipped => cases same
      | _ => rfl
    · rw [Diagnostic.isWriteFault, same]
      exact unwritten code early

theorem exists_mem_prepare_diagnostics :
    (∃ m ∈ (ctx.prepare d).diagnostics, m.isError = true) ↔
      (∃ p ∈ ctx.filesRead d, loadFails d p = true) ∨
        ∃ m ∈ ctx.toldOnBases d, m.isError = true := by
  have kept {m : Diagnostic} (told : m ∈ (ctx.prepare d).loaded.diagnostics) :
      m ∈ (ctx.prepare d).diagnostics :=
    List.mem_append_left _ (List.mem_append_right _ told)
  constructor
  · rintro ⟨m, told, error⟩
    rcases prepare_diagnostics_cases told with
      ⟨p, -, rfl⟩ | bases | ⟨p, listed, reading⟩ | ⟨p, f, rfl⟩
    · cases error
    · exact .inr ⟨m, bases, error⟩
    · refine .inl ⟨p, listed, ?_⟩
      rw [toldOnReading] at reading
      rw [loadFails]
      split at reading
      · obtain ⟨message, -, rfl⟩ := List.mem_map.mp reading
        cases error
      · rfl
    · cases error
  · rintro (⟨p, listed, fails⟩ | ⟨m, bases, error⟩)
    · rw [loadFails] at fails
      cases load : loadSource d p with
      | ok f => simp [load] at fails
      | error fault =>
        refine ⟨fault.diagnostic (ctx.display p),
          kept (((ctx.prepare_reads d).told _).mpr (.inr ⟨p, listed, ?_⟩)), ?_⟩
        · simp [toldOnReading, load]
        · rcases fault with _ | (_ | _) <;> rfl
    · exact ⟨m, kept (((ctx.prepare_reads d).told m).mpr (.inl bases)), error⟩

theorem exists_error :
    (∃ m ∈ (ctx.lastState d).diagnostics, m.isError = true) ↔
      (∃ v ∈ ctx.visits d, v.outcome ctx (ctx.prepare d) = .failed) ∨
        ∃ m ∈ ctx.toldOnBases d, m.isError = true := by
  have early := ctx.exists_mem_prepare_diagnostics d
  rw [← exists_unread] at early
  rw [lastState_diagnostics]
  constructor
  · rintro ⟨m, told, error⟩
    rcases List.mem_append.mp told with before | during
    · rcases early.mp ⟨m, before, error⟩ with ⟨v, member, lost⟩ | bases
      · exact .inl ⟨v, member, (Visit.failed_iff member).mpr (.inl lost)⟩
      · exact .inr bases
    · obtain ⟨v, member, own⟩ := List.mem_flatMap.mp during
      have unwritten := (Visit.exists_error_told member).mp ⟨m, own, error⟩
      exact .inl ⟨v, member, (Visit.failed_iff member).mpr (.inr unwritten)⟩
  · rintro (⟨v, member, failed⟩ | bases)
    · rcases (Visit.failed_iff member).mp failed with lost | unwritten
      · obtain ⟨m, before, error⟩ := early.mpr (.inl ⟨v, member, lost⟩)
        exact ⟨m, List.mem_append_left _ before, error⟩
      · obtain ⟨m, own, error⟩ := (Visit.exists_error_told member).mpr unwritten
        exact ⟨m, List.mem_append_right _ (List.mem_flatMap.mpr ⟨v, member, own⟩), error⟩
    · obtain ⟨m, before, error⟩ := early.mpr (.inr bases)
      exact ⟨m, List.mem_append_left _ before, error⟩

theorem countP_skips :
    (ctx.lastState d).diagnostics.countP Diagnostic.isSkip =
      (ctx.visits d).countP fun v => v.outcome ctx (ctx.prepare d) = .skipped := by
  have each (visits : List Visit) (listed : ∀ v ∈ visits, v ∈ ctx.visits d) :
      (visits.flatMap (·.told ctx (ctx.prepare d))).countP Diagnostic.isSkip =
        visits.countP fun v => v.outcome ctx (ctx.prepare d) = .skipped := by
    induction visits with
    | nil => rfl
    | cons v rest ih =>
      rw [List.forall_mem_cons] at listed
      rw [List.flatMap_cons, List.countP_append, Visit.told_skips listed.1, ih listed.2,
        List.countP_cons, Nat.add_comm]
      simp
  -- What the globs exclude is told too, but no run comes to it.
  have before : (ctx.prepare d).diagnostics.countP Diagnostic.isSkip = 0 := by
    refine List.countP_eq_zero.mpr fun m told => ?_
    simp [(prepare_quiet told).1]
  rw [lastState_diagnostics, List.countP_append, before, each _ fun _ listed => listed,
    Nat.zero_add]

theorem filter_writeFaults :
    (ctx.lastState d).diagnostics.filter Diagnostic.isWriteFault =
      (ctx.visits d).flatMap (·.faults ctx (ctx.prepare d)) := by
  have before : (ctx.prepare d).diagnostics.filter Diagnostic.isWriteFault = [] := by
    refine List.filter_eq_nil_iff.mpr fun m told => ?_
    simp [(prepare_quiet told).2]
  rw [lastState_diagnostics, List.filter_append, before, List.nil_append, List.filter_flatMap]
  exact List.flatMap_congr fun v member => Visit.told_faults member

end Context

structure Accounted (ctx : Context) (d : Disk) (report : Report) : Prop where
  models : report.models.files = (Path.components '' {p | ctx.IsModelFile d p}).ncard
  mixins : report.mixins.files = (ctx.discover d).mixins.length
  total : report.total = report.models.add report.mixins
  mixinOutcomes : (ctx.mixinVisits d).map Visit.path = (ctx.discover d).mixins ∧
    let outcomes := (ctx.mixinVisits d).map (·.outcome ctx (ctx.prepare d))
    report.mixins.processed = outcomes.count .processed ∧
      report.mixins.skipped = outcomes.count .skipped ∧
      report.mixins.errors = outcomes.count .failed
  mixinFailed : ∀ v ∈ ctx.mixinVisits d, v.outcome ctx (ctx.prepare d) = .failed ↔
    (∃ fault, loadSource d v.path = .error fault) ∨
      ∃ g ∈ v.given ctx (ctx.prepare d), g.2 ≠ none
  mixinSkipped : ∀ v ∈ ctx.mixinVisits d, v.outcome ctx (ctx.prepare d) = .skipped ↔
    ∃ f, loadSource d v.path = .ok f ∧
      ((ctx.prepare d).graph.isConnected v.path = false ∨ f.declaration = none)
  mixinProcessed : ∀ v ∈ ctx.mixinVisits d, v.outcome ctx (ctx.prepare d) = .processed ↔
    ∃ f, loadSource d v.path = .ok f ∧ (ctx.prepare d).graph.isConnected v.path = true ∧
      f.declaration.isSome = true ∧ ∀ g ∈ v.given ctx (ctx.prepare d), g.2 = none
  skips : report.total.skipped = report.diagnostics.countP Diagnostic.isSkip
  given : ∀ v ∈ ctx.visits d,
    (v.given ctx (ctx.prepare d)).map Prod.fst = v.planned ctx (ctx.prepare d)
  recorded : report.artifacts = (ctx.visits d).flatMap fun v =>
    (emittedOf (v.given ctx (ctx.prepare d))).map (RunState.recordOf ctx v.path)
  unwritten : (report.diagnostics.filter Diagnostic.isWriteFault).Perm
    ((ctx.visits d).flatMap fun v => faultsOf (v.given ctx (ctx.prepare d)) (ctx.display v.path))
  errors : report.hasErrors = true ↔
    0 < report.total.errors ∨
      (∃ s ∈ ctx.intermediateModels, ctx.resolveFromRoot? d s .model = none) ∨
      ∃ p, BaseOrder.OnCycle (ctx.ExtendsIntermediate d (ctx.prepare d).loaded.parsed) p
  exitCode : ∀ id options config, Command.configOf d options = .ok config →
    Context.ofConfig d config = .ok ctx →
    ((Command.migrateWith d id options).2.exitCode = 1 ↔ report.hasErrors = true)

theorem Visit.read_of_mem_mixinVisits {ctx : Context} {d : Disk} {v : Visit}
    (member : v ∈ ctx.mixinVisits d) :
    v ∈ ctx.visits d ∧ v.role = .mixin ∧
      (ctx.prepare d).loaded.parsed.get? v.path = (loadSource d v.path).toOption := by
  obtain ⟨visited, role⟩ := List.mem_filter.mp member
  refine ⟨visited, of_decide_eq_true role, ?_⟩
  exact (ctx.prepare_reads d).get?_of_mem (ctx.filesRead_distinct d)
    (Context.mem_filesRead_of_mixinVisit member)

theorem Context.total_eq (ctx : Context) (d : Disk) :
    (migrate ctx d).2.total =
      Counters.ofOutcomes ((ctx.visits d).map (·.outcome ctx (ctx.prepare d))) := by
  have counted (outcome : Outcome) :
      ((ctx.visits d).map (·.outcome ctx (ctx.prepare d))).count outcome =
        ((ctx.modelVisits d).map (·.outcome ctx (ctx.prepare d))).count outcome +
          ((ctx.mixinVisits d).map (·.outcome ctx (ctx.prepare d))).count outcome := by
    rw [← ((ctx.visits_perm d).map _).count_eq, List.map_append, List.count_append, Nat.add_comm]
  simp only [migrate_eq_visits, Counters.ofOutcomes_eq, Counters.add, counted]

theorem migrate_accounted (ctx : Context) (d : Disk) : Accounted ctx d (migrate ctx d).2 where
  models := by
    have files : {p | ctx.IsModelFile d p} =
        {p | ((ctx.modelVisits d).map Visit.path).contains p = true} :=
      Set.ext fun p => (ctx.contains_modelVisits d p).symm
    rw [files, (ctx.modelVisits_distinct d).ncard_components, migrate_eq_visits]
    simp [Counters.files_ofOutcomes]
  mixins := by
    rw [← ctx.mixinVisits_paths, migrate_eq_visits]
    simp [Counters.files_ofOutcomes]
  total := by rw [migrate_eq_visits]
  mixinOutcomes := by
    refine ⟨ctx.mixinVisits_paths d, ?_⟩
    simp [migrate_eq_visits, Counters.ofOutcomes_eq]
  mixinFailed v member := by
    obtain ⟨visited, -, read⟩ := Visit.read_of_mem_mixinVisits member
    rw [Visit.failed_iff visited, read]
    cases loadSource d v.path <;> simp [Except.toOption]
  mixinSkipped v member := by
    obtain ⟨visited, role, read⟩ := Visit.read_of_mem_mixinVisits member
    rw [Visit.skipped_iff visited, read]
    cases loadSource d v.path <;> simp [Except.toOption, role]
  mixinProcessed v member := by
    obtain ⟨visited, role, read⟩ := Visit.read_of_mem_mixinVisits member
    rw [Visit.processed_iff visited, read]
    cases loadSource d v.path <;> simp [Except.toOption, role]
  skips := by
    have sorted := (List.mergeSort_perm (ctx.lastState d).diagnostics Diagnostic.le).countP_eq
      Diagnostic.isSkip
    rw [ctx.total_eq, Counters.ofOutcomes_eq, migrate_eq_visits]
    simp only [Diagnostic.sort, sorted, ctx.countP_skips, List.count, List.countP_map]
    rfl
  given v _ := v.given_artifacts ctx _
  recorded := by
    rw [migrate_eq_visits]
    exact ctx.lastState_artifacts d
  unwritten := by
    rw [migrate_eq_visits]
    have sorted := (List.mergeSort_perm (ctx.lastState d).diagnostics Diagnostic.le).filter
      Diagnostic.isWriteFault
    rwa [ctx.filter_writeFaults] at sorted
  errors := by
    have failed : 0 < (migrate ctx d).2.total.errors ↔
        ∃ v ∈ ctx.visits d, v.outcome ctx (ctx.prepare d) = .failed := by
      rw [ctx.total_eq, Counters.ofOutcomes_eq]
      simp [List.count_pos_iff]
    rw [failed, ← Context.exists_mem_toldOnBases, ← ctx.exists_error, migrate_eq_visits]
    simp [Report.hasErrors, Diagnostic.sort]
  exitCode id options config loaded built := by
    simp only [Command.migrateWith, loaded, built]
    cases (migrate ctx d).2.hasErrors <;> simp

end SchemaMigration
