import SchemaMigration.Proofs.DryRun
import SchemaMigration.Proofs.Rearrangement

set_option autoImplicit false

namespace SchemaMigration

namespace BaseOrder

variable {α : Type} [BEq α] [EquivBEq α] {members : List α} {base? : α → Option α}

omit [EquivBEq α] in
theorem Trail.forall_mem {Holds : α → Prop} {ordered active chain closing : List α} {member : α}
    (trail : Trail members base? ordered active member chain closing)
    (bases : ∀ a b, base? a = some b → Holds b) (start : Holds member) :
    ∀ a ∈ chain, Holds a := by
  induction trail with
  | done | closes => simp
  | ends => simpa using start
  | climbs _ _ based _ ih =>
    have below := ih (bases _ _ (Option.filter_eq_some_iff.mp based).1)
    intro a listed
    rcases List.mem_append.mp listed with lower | last
    next => exact below a lower
    next => rwa [List.mem_singleton.mp last]

theorem forall_mem_ofMembers {Holds : α → Prop} (own : ∀ a ∈ members, Holds a)
    (bases : ∀ a b, base? a = some b → Holds b) :
    ∀ a ∈ (ofMembers members base?).ordered, Holds a := by
  have aux (rest : List α) (order : BaseOrder α) (listed : ∀ a ∈ rest, Holds a)
      (before : ∀ a ∈ order.ordered, Holds a) :
      ∀ a ∈ (rest.foldl (visit members base? []) order).ordered, Holds a := by
    induction rest generalizing order with
    | nil => exact before
    | cons member rest ih =>
      apply ih _ fun a later => listed a (List.mem_cons_of_mem member later)
      obtain ⟨chain, closing, trail, result⟩ := visit_trail members base? [] order member
      rw [result]
      intro a added
      rcases List.mem_append.mp added with old | new
      next => exact before a old
      next => exact trail.forall_mem bases (listed member List.mem_cons_self) a new
  exact aux members ⟨[], []⟩ own (by simp)

end BaseOrder

namespace Project

variable {first second : Project}

theorem planDeclared_congr (ctx : first.ctx = second.ctx) (f : SourceFile) (role : Role)
    (declaration : Declaration)
    (traits : first.traitsOf f role declaration.mixins =
      second.traitsOf f role declaration.mixins) :
    first.planDeclared f role declaration = second.planDeclared f role declaration := by
  simp only [planDeclared, descriptorOf, ctx, traits]

theorem mixinTrait?_congr (ctx : first.ctx = second.ctx) (disk : first.disk = second.disk)
    (mixins : first.mixins = second.mixins)
    (parsed : ∀ p, first.parsed.get? p = second.parsed.get? p) (f : SourceFile) :
    first.mixinTrait? f = second.mixinTrait? f := by
  cases first
  cases second
  subst ctx disk mixins
  funext name
  simp only [mixinTrait?, parsed]

theorem baseTrait?_congr {f : SourceFile}
    (based : baseModel? first.ctx first.disk first.parsed f.path =
      baseModel? second.ctx second.disk second.parsed f.path)
    (known : ∀ p, first.intermediates.contains p = second.intermediates.contains p)
    (registered : ∀ p, first.registry.get? p = second.registry.get? p) :
    first.baseTrait? f = second.baseTrait? f := by
  rw [baseTrait?, baseTrait?, based]
  cases baseModel? second.ctx second.disk second.parsed f.path with
  | none => rfl
  | some base =>
    by_cases listed : second.intermediates.contains base = true
    next => simp [known, listed, registered]
    next => simp [known, listed]

end Project

namespace Context

variable {ctx : Context} {d : Disk}

def HasNoCycle (ctx : Context) (d : Disk) : Prop :=
  ∀ p, ¬BaseOrder.OnCycle (ctx.ExtendsIntermediate d (ctx.prepare d).loaded.parsed) p

theorem base_done (acyclic : ctx.HasNoCycle d) {front back : List (Role × Path)} {role : Role}
    {p base : Path} (split : (ctx.prepare d).agenda = front ++ (role, p) :: back)
    (proper : role ≠ .mixin)
    (based : Project.baseModel? ctx d (ctx.prepare d).loaded.parsed p = some base)
    (known : (ctx.prepare d).intermediates.contains base = true) :
    (basesOf front).contains base = true := by
  rw [basesOf_front_iff split proper known]
  by_cases own : ctx.IsIntermediate d p
  next =>
    obtain ⟨reported, order⟩ := ctx.prepare_basesFirst d
    have edge : ctx.ExtendsIntermediate d (ctx.prepare d).loaded.parsed p base :=
      ⟨(order.member base).mp known, base, based, BEq.rfl⟩
    refine .inr (order.baseFirst p base own edge ?_)
    rintro (same | path)
    next =>
      -- A file that extends itself is a circle of one.
      apply acyclic p
      exact .single ⟨own, base, based, same⟩
    next => exact acyclic p (.head edge path)
  next => exact .inl own

theorem baseTrait?_eq_last (dry : ctx.dryRun = true) (acyclic : ctx.HasNoCycle d) {v : Visit}
    (member : v ∈ ctx.visits d) (proper : v.role ≠ .mixin) {f : SourceFile}
    (read : (ctx.prepare d).loaded.parsed.get? v.path = some f) :
    (v.before.project ctx (ctx.prepare d)).baseTrait? f =
      ((ctx.lastState d).project ctx (ctx.prepare d)).baseTrait? f := by
  obtain ⟨front, back, split, now⟩ := registered_visit dry member
  have own := (ctx.prepare_keyed d v.path f read).1
  rw [now.baseTrait? own, (ctx.lastState_registered dry).baseTrait? own]
  cases based : Project.baseModel? ctx d (ctx.prepare d).loaded.parsed v.path with
  | none => rfl
  | some base =>
    by_cases known : (ctx.prepare d).intermediates.contains base = true
    next => simp only [Option.bind_some, known, base_done acyclic split proper based known]
    next => simp [known]

end Context

-- What is known before two runs differs in the order of the bases of models only.
structure Prepared.Alike (first second : Prepared) : Prop where
  discovered : first.discovered = second.discovered
  parsed : ∀ p, first.loaded.parsed.get? p = second.loaded.parsed.get? p
  failed : ∀ p, first.loaded.failed.contains p = second.loaded.failed.contains p
  intermediates : first.intermediates.Perm second.intermediates
  graph : first.graph = second.graph

namespace Prepared.Alike

variable {ctx : Context} {prepared prepared' : Prepared}

theorem refl (prepared : Prepared) : prepared.Alike prepared :=
  ⟨rfl, fun _ => rfl, fun _ => rfl, .refl _, rfl⟩

theorem agenda (alike : prepared.Alike prepared') : prepared.agenda.Perm prepared'.agenda := by
  have known := alike.intermediates
  have plain : prepared.plainModels = prepared'.plainModels := by
    simp only [plainModels, alike.discovered, known.contains_eq]
  rw [Prepared.agenda, Prepared.agenda, plain, alike.discovered]
  exact ((known.map _).append_right _).append_right _

theorem traitOf? (alike : prepared.Alike prepared') (p : Path) :
    prepared.traitOf? ctx p = prepared'.traitOf? ctx p := by
  rw [Prepared.traitOf?, Prepared.traitOf?, alike.parsed]

theorem forecast (alike : prepared.Alike prepared') (role : Role) (p : Path) :
    ctx.forecast prepared role p = ctx.forecast prepared' role p := by
  simp only [Context.forecast, alike.failed, alike.graph, alike.parsed]

theorem verdict (alike : prepared.Alike prepared') (ctx : Context) {state state' : RunState}
    (disk : state.disk = state'.disk) {role : Role} {p : Path}
    (base : ∀ f, prepared.loaded.parsed.get? p = some f → role ≠ .mixin →
      (state.project ctx prepared).baseTrait? f = (state'.project ctx prepared').baseTrait? f) :
    Visit.verdict ⟨role, p, state⟩ ctx prepared =
      Visit.verdict ⟨role, p, state'⟩ ctx prepared' := by
  have file : Visit.fileVerdict ⟨role, p, state⟩ ctx prepared =
      Visit.fileVerdict ⟨role, p, state'⟩ ctx prepared' := by
    simp only [Visit.fileVerdict, ← alike.parsed]
    cases read : prepared.loaded.parsed.get? p with
    | none => rfl
    | some f =>
      have mixins : (state.project ctx prepared).mixinTrait? f =
          (state'.project ctx prepared').mixinTrait? f := by
        apply Project.mixinTrait?_congr
        next => rfl
        next => exact disk
        next => exact congrArg Discovered.mixins alike.discovered
        next => exact alike.parsed
      have traits (names : List String) : (state.project ctx prepared).traitsOf f role names =
          (state'.project ctx prepared').traitsOf f role names := by
        by_cases mixin : role = .mixin
        next => simp [Project.traitsOf, mixin, mixins]
        next => simp only [Project.traitsOf, mixins, base f read mixin]
      cases declared : f.declaration with
      | none => simp [Project.plan, declared]
      | some declaration =>
        have plans : (state.project ctx prepared).planDeclared f role declaration =
            (state'.project ctx prepared').planDeclared f role declaration := by
          apply Project.planDeclared_congr _ f role declaration (traits _)
          rfl
        simp only [Project.plan, declared, plans]
  simp only [Visit.verdict, alike.failed, alike.graph, file]

end Prepared.Alike

namespace Context

variable {ctx : Context} {d : Disk}

theorem verdict_eq_last (dry : ctx.dryRun = true) (acyclic : ctx.HasNoCycle d) {v : Visit}
    (member : v ∈ ctx.visits d) :
    v.verdict ctx (ctx.prepare d) =
      Visit.verdict ⟨v.role, v.path, ctx.lastState d⟩ ctx (ctx.prepare d) := by
  apply (Prepared.Alike.refl (ctx.prepare d)).verdict ctx
  next =>
    obtain ⟨front, -, -, registered⟩ := registered_visit dry member
    rw [registered.disk, (ctx.lastState_registered dry).disk]
  next =>
    intro f read proper
    exact baseTrait?_eq_last dry acyclic member proper read

def emissionsAt (ctx : Context) (prepared : Prepared) (last : RunState) (entry : Role × Path) :
    List Emission :=
  (Visit.planned ⟨entry.1, entry.2, last⟩ ctx prepared).map fun a =>
    ⟨entry.1, (prepared.loaded.parsed.get? entry.2).elim entry.2 SourceFile.path, a⟩

variable (ctx) in
theorem emissions_eq_last (dry : ctx.dryRun = true) (acyclic : ctx.HasNoCycle d) :
    ctx.emissions d =
      (ctx.prepare d).agenda.flatMap (ctx.emissionsAt (ctx.prepare d) (ctx.lastState d)) := by
  rw [← ctx.visits_entries, List.flatMap_map, emissions]
  apply List.flatMap_congr
  intro v member
  have written := given_of_faultsOf_eq_nil (quiet_of_dryRun dry v (ctx.prepare d))
  rw [Visit.emitted, emittedOf_of_quiet written, v.given_artifacts, Visit.planned,
    verdict_eq_last dry acyclic member]
  rfl

end Context

end SchemaMigration
