import SchemaMigration.Proofs.Forecast

set_option autoImplicit false

namespace SchemaMigration

inductive Context.Skips (ctx : Context) (d : Disk) : Path → SkipReason → Prop where
  | excluded {p : Path} (listed : p ∈ (ctx.discover d).excluded) : Skips ctx d p .excludedByGlob
  | visited {v : Visit} {reason : SkipReason} (member : v ∈ ctx.visits d)
      (verdict : v.verdict ctx (ctx.prepare d) = .skip reason) : Skips ctx d v.path reason

namespace Context

variable {ctx : Context} {d : Disk}

theorem IsIntermediate.congr {p q : Path} (same : (p == q) = true)
    (named : ctx.IsIntermediate d p) : ctx.IsIntermediate d q := by
  obtain ⟨specifier, listed, target, resolved, equal⟩ := named
  exact ⟨specifier, listed, target, resolved, BEq.trans (BEq.symm same) equal⟩

section Reported

theorem skipped_mem_told {v : Visit} (member : v ∈ ctx.visits d) {shown : String}
    {reason : SkipReason} :
    Diagnostic.skipped shown reason ∈ v.told ctx (ctx.prepare d) ↔
      v.verdict ctx (ctx.prepare d) = .skip reason ∧ shown = ctx.display v.path := by
  rw [Visit.told]
  cases verdict : v.verdict ctx (ctx.prepare d) with
  | unread => simp
  | skip other => simp [and_comm, eq_comm]
  | generate plan =>
    have judged := ctx.judged_visit member
    rw [verdict] at judged
    cases judged with
    | generate read used declared =>
      simp only [reduceCtorEq, false_and, iff_false]
      intro told
      rcases List.mem_append.mp told with warned | fault
      · obtain ⟨shown, message, same⟩ := Project.planDeclared_warnings _ _ _ _ _ warned
        cases same
      · obtain ⟨a, e, same⟩ := mem_faultsOf fault
        cases same

theorem skipped_mem_prepare {shown : String} {reason : SkipReason} :
    Diagnostic.skipped shown reason ∈ (ctx.prepare d).diagnostics ↔
      reason = .excludedByGlob ∧ ∃ p ∈ (ctx.discover d).excluded, shown = ctx.display p := by
  constructor
  · intro told
    rcases prepare_code_cases told with ⟨p, listed, same⟩ | ⟨code, -, same⟩
    · cases same
      exact ⟨rfl, p, listed, rfl⟩
    · cases same
  · rintro ⟨rfl, p, listed, rfl⟩
    exact List.mem_append_left _ (List.mem_append_left _ (List.mem_map_of_mem listed))

theorem skipped_mem_report {shown : String} {reason : SkipReason} :
    Diagnostic.skipped shown reason ∈ (migrate ctx d).2.diagnostics ↔
      ∃ p, ctx.Skips d p reason ∧ shown = ctx.display p := by
  have sorted : Diagnostic.skipped shown reason ∈ (migrate ctx d).2.diagnostics ↔
      Diagnostic.skipped shown reason ∈ (ctx.lastState d).diagnostics := by
    rw [migrate_eq_visits]
    exact List.mem_mergeSort
  rw [sorted, lastState_diagnostics, List.mem_append, skipped_mem_prepare, List.mem_flatMap]
  constructor
  · rintro (⟨rfl, p, listed, rfl⟩ | ⟨v, member, told⟩)
    · exact ⟨p, .excluded listed, rfl⟩
    · obtain ⟨verdict, rfl⟩ := (skipped_mem_told member).mp told
      exact ⟨v.path, .visited member verdict, rfl⟩
  · rintro ⟨p, skips, rfl⟩
    cases skips with
    | excluded listed => exact .inl ⟨rfl, p, listed, rfl⟩
    | visited member verdict => exact .inr ⟨_, member, (skipped_mem_told member).mpr ⟨verdict, rfl⟩⟩

theorem mem_report_artifacts {r : ArtifactRecord} :
    r ∈ (migrate ctx d).2.artifacts ↔
      ∃ v ∈ ctx.visits d, ∃ a ∈ v.emitted ctx (ctx.prepare d),
        r = RunState.recordOf ctx v.path a := by
  rw [migrate_eq_visits, lastState_artifacts]
  simp [eq_comm]

end Reported

theorem found_of_visit {v : Visit} (member : v ∈ ctx.visits d) :
    v.role = .intermediate ∧ ctx.IsIntermediate d v.path ∨
      v.role = .model ∧ v.path ∈ (ctx.discover d).models ∨
      v.role = .mixin ∧ v.path ∈ (ctx.discover d).mixins := by
  have entry : (v.role, v.path) ∈ (ctx.prepare d).agenda := by
    rw [← visits_entries]
    exact List.mem_map_of_mem (f := fun v : Visit => (v.role, v.path)) member
  simp only [Prepared.agenda, List.mem_append, List.mem_map, Prod.mk.injEq] at entry
  rcases entry with (⟨p, base, role, rfl⟩ | ⟨p, plain, role, rfl⟩) | ⟨p, mixin, role, rfl⟩
  · obtain ⟨reported, order⟩ := ctx.prepare_basesFirst d
    exact .inl ⟨role.symm, (order.member _).mp (List.elem_eq_true_of_mem base)⟩
  · exact .inr (.inl ⟨role.symm, List.mem_of_mem_filter plain⟩)
  · exact .inr (.inr ⟨role.symm, mixin⟩)

theorem exists_visit_of_intermediate {p : Path} (named : ctx.IsIntermediate d p) :
    ∃ v ∈ ctx.visits d, v.role = .intermediate ∧ (v.path == p) = true := by
  obtain ⟨reported, order⟩ := ctx.prepare_basesFirst d
  obtain ⟨q, base, same⟩ := List.contains_iff_exists_mem_beq.mp ((order.member p).mpr named)
  have entry : (Role.intermediate, q) ∈ (ctx.prepare d).agenda :=
    List.mem_append_left _ (List.mem_append_left _ (List.mem_map_of_mem base))
  rw [← visits_entries] at entry
  obtain ⟨v, member, equal⟩ := List.mem_map.mp entry
  obtain ⟨role, rfl⟩ := Prod.mk.inj equal
  exact ⟨v, member, role, BEq.symm same⟩

theorem not_excluded_of_discovered (names : d.ProperNames) {p q : Path}
    (excluded : p ∈ (ctx.discover d).excluded)
    (kept : q ∈ (ctx.discover d).models ++ (ctx.discover d).mixins) : (q == p) = false := by
  rw [Bool.eq_false_iff]
  intro same
  obtain ⟨found, out⟩ := List.mem_filter.mp (Path.mem_of_mem_sortedSet excluded)
  obtain ⟨root, -, below⟩ := List.mem_flatMap.mp found
  have inside : (!ctx.isExcluded q) = true := by
    rcases List.mem_append.mp kept with model | mixin
    · exact (List.mem_filter.mp (Path.mem_of_mem_sortedSet (List.mem_of_mem_filter model))).2
    · exact (List.mem_filter.mp (Path.mem_of_mem_sortedSet (List.mem_of_mem_filter mixin))).2
  -- Both are written in the canonical way, so the patterns see the same text.
  rw [(discover_isCanonical names kept).eq_of_beq (sourcesBelow_isCanonical names below) same,
    out] at inside
  cases inside

end Context

namespace Visit

variable {ctx : Context} {d : Disk} {v : Visit}

theorem planned_ne_nil_iff (member : v ∈ ctx.visits d) :
    v.planned ctx (ctx.prepare d) ≠ [] ↔
      ∃ f, (ctx.prepare d).loaded.parsed.get? v.path = some f ∧ f.declaration.isSome = true ∧
        (v.role = .mixin → (ctx.prepare d).graph.isConnected v.path = true) := by
  have judged := ctx.judged_visit member
  rw [planned]
  generalize v.verdict ctx (ctx.prepare d) = verdict at judged ⊢
  cases judged with
  | unread lost => simp [lost]
  | unconnected read role unused => simp [read, role, unused]
  | undeclared read used bare => simp [read, bare]
  | generate read used declared => simpa [read, declared, Project.planDeclared] using used

theorem emitted_subset_planned {a : Artifact} (emitted : a ∈ v.emitted ctx (ctx.prepare d)) :
    a ∈ v.planned ctx (ctx.prepare d) := by
  rw [← v.given_artifacts]
  exact (emittedOf_sublist _).subset emitted

-- Of the ways on which files are found only that of the bases meets another one.
theorem intermediate_of_skipped (names : d.ProperNames) {p : Path} {reason : SkipReason}
    (skips : ctx.Skips d p reason) (member : v ∈ ctx.visits d) (same : (v.path == p) = true)
    (planned : v.planned ctx (ctx.prepare d) ≠ []) :
    v.role = .intermediate ∧ reason ≠ .noDeclaration := by
  obtain ⟨f, read, declared, used⟩ := (planned_ne_nil_iff member).mp planned
  have found := ctx.found_of_visit member
  cases skips with
  | excluded listed =>
    have kept {q : Path} (source : q ∈ (ctx.discover d).models ++ (ctx.discover d).mixins) :=
      Context.not_excluded_of_discovered names listed source
    rcases found with ⟨role, -⟩ | ⟨-, model⟩ | ⟨-, mixin⟩
    · exact ⟨role, nofun⟩
    · cases same.symm.trans (kept (List.mem_append_left _ model))
    · cases same.symm.trans (kept (List.mem_append_right _ mixin))
  | @visited w _ skipped verdict =>
    have judged := ctx.judged_visit skipped
    rw [verdict] at judged
    cases judged with
    | undeclared read' _ bare =>
      rw [← PathMap.get?_congr _ same, read] at read'
      cases read'
      simp [bare] at declared
    | unconnected _ role unused =>
      have mixin := Context.mem_mixins_of_mixinVisit
        (List.mem_filter.mpr ⟨skipped, decide_eq_true role⟩)
      rcases found with ⟨role, -⟩ | ⟨-, model⟩ | ⟨role, other⟩
      · exact ⟨role, nofun⟩
      · -- No file is discovered as a model and as a mixin.
        have apart := (List.pairwise_append.mp (ctx.discoveredSources_distinct d)).2.2
          _ model _ mixin
        cases same.symm.trans apart
      · have equal := (ctx.discoveredSources_distinct d).eq_of_beq
          (List.mem_append_right _ other) (List.mem_append_right _ mixin) same
        rw [equal] at used
        cases unused.symm.trans (used role)

end Visit

theorem skipped_files_generate {ctx : Context} {d : Disk} (names : d.ProperNames) :
    (∀ shown reason, Diagnostic.skipped shown reason ∈ (migrate ctx d).2.diagnostics ↔
      ∃ p, ctx.Skips d p reason ∧ shown = ctx.display p) ∧
    (∀ r, r ∈ (migrate ctx d).2.artifacts ↔
      ∃ v ∈ ctx.visits d, ∃ a ∈ v.emitted ctx (ctx.prepare d),
        r = RunState.recordOf ctx v.path a) ∧
    ∀ p reason, ctx.Skips d p reason →
      (∀ v ∈ ctx.visits d, (v.path == p) = true → v.emitted ctx (ctx.prepare d) ≠ [] →
        v.role = .intermediate ∧ reason ≠ .noDeclaration) ∧
      ((∃ v ∈ ctx.visits d, (v.path == p) = true ∧ v.planned ctx (ctx.prepare d) ≠ []) ↔
        ctx.IsIntermediate d p ∧ ∃ f, (ctx.prepare d).loaded.parsed.get? p = some f ∧
          f.declaration.isSome = true) := by
  refine ⟨fun _ _ => Context.skipped_mem_report, fun _ => Context.mem_report_artifacts, ?_⟩
  intro p reason skips
  constructor
  · intro v member same emitted
    obtain ⟨a, given⟩ := List.exists_mem_of_ne_nil _ emitted
    exact Visit.intermediate_of_skipped names skips member same
      (List.ne_nil_of_mem (Visit.emitted_subset_planned given))
  constructor
  · rintro ⟨v, member, same, planned⟩
    obtain ⟨role, -⟩ := Visit.intermediate_of_skipped names skips member same planned
    obtain ⟨f, read, declared, -⟩ := (Visit.planned_ne_nil_iff member).mp planned
    rw [PathMap.get?_congr _ same] at read
    refine ⟨?_, f, read, declared⟩
    rcases Context.found_of_visit member with ⟨-, named⟩ | ⟨other, -⟩ | ⟨other, -⟩
    · exact named.congr same
    · cases role.symm.trans other
    · cases role.symm.trans other
  · rintro ⟨named, f, read, declared⟩
    obtain ⟨v, member, role, same⟩ := Context.exists_visit_of_intermediate named
    refine ⟨v, member, same, (Visit.planned_ne_nil_iff member).mpr ⟨f, ?_, declared, ?_⟩⟩
    · rw [PathMap.get?_congr _ same, read]
    · intro mixin
      cases role.symm.trans mixin

def excludedDisk : Disk where
  entries := [
    (["m"], .directory),
    (["m", "user.js"], .file "export default M.extend()".toUTF8)]
  workingDirectory := []

def excludedConfig : Config where
  projectRoot := ⟨"/"⟩
  models := { directory := some ⟨"m"⟩ }
  intermediateModels := ["./m/user"]
  exclude := ["m/*"]

theorem excluded_properNames : excludedDisk.ProperNames := by
  constructor <;> simp only [Place.IsProper] <;> decide +kernel

theorem excluded_report :
    ((Context.ofConfig excludedDisk excludedConfig).toOption.any fun ctx =>
      let report := (migrate ctx excludedDisk).2
      report.diagnostics == [.skipped "m/user.js" .excludedByGlob] &&
        report.artifacts.map (fun r => (r.kind, r.source)) == [(.trait, "m/user.js")]) = true := by
  decide +kernel

theorem skipped_files_generate_base :
    ∃ ctx, Context.ofConfig excludedDisk excludedConfig = .ok ctx ∧ excludedDisk.ProperNames ∧
      (∃ p, ctx.Skips excludedDisk p .excludedByGlob ∧ "m/user.js" = ctx.display p) ∧
      ∃ v ∈ ctx.visits excludedDisk, ∃ a ∈ v.emitted ctx (ctx.prepare excludedDisk),
        a.kind = .trait ∧ ctx.display v.path = "m/user.js" := by
  obtain ⟨ctx, built, checked⟩ := Context.exists_ofConfig excluded_report
  rw [Bool.and_eq_true, beq_iff_eq, beq_iff_eq] at checked
  obtain ⟨told, recorded⟩ := checked
  obtain ⟨skipped, sources, -⟩ := @skipped_files_generate ctx _ excluded_properNames
  refine ⟨ctx, built, excluded_properNames, (skipped _ _).mp (by simp [told]), ?_⟩
  have listed : (ArtifactKind.trait, "m/user.js") ∈
      (migrate ctx excludedDisk).2.artifacts.map fun r => (r.kind, r.source) := by
    simp [recorded]
  obtain ⟨r, given, same⟩ := List.mem_map.mp listed
  obtain ⟨v, member, a, emitted, rfl⟩ := (sources r).mp given
  obtain ⟨kind, source⟩ := Prod.mk.inj same
  exact ⟨v, member, a, emitted, kind, source⟩

theorem skipped_source_emitted :
    ∃ ctx, Context.ofConfig excludedDisk excludedConfig = .ok ctx ∧
      ∃ shown reason, Diagnostic.skipped shown reason ∈ (migrate ctx excludedDisk).2.diagnostics ∧
        ∃ r ∈ (migrate ctx excludedDisk).2.artifacts, r.source = shown := by
  obtain ⟨ctx, built, checked⟩ := Context.exists_ofConfig excluded_report
  rw [Bool.and_eq_true, beq_iff_eq, beq_iff_eq] at checked
  obtain ⟨told, recorded⟩ := checked
  have listed : "m/user.js" ∈ (migrate ctx excludedDisk).2.artifacts.map ArtifactRecord.source := by
    have sources := congrArg (List.map Prod.snd) recorded
    rw [List.map_map] at sources
    exact sources ▸ List.mem_singleton_self _
  obtain ⟨r, given, same⟩ := List.mem_map.mp listed
  exact ⟨ctx, built, _, _, told ▸ List.mem_singleton_self _, r, given, same⟩

end SchemaMigration
