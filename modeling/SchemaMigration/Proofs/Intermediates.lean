import SchemaMigration.Proofs.BaseOrder
import SchemaMigration.Proofs.PathSets
import SchemaMigration.Migration.Run

set_option autoImplicit false

namespace SchemaMigration

def Diagnostic.code? : Diagnostic → Option String
  | .error _ _ code _ | .warning _ _ code _ => some code
  | .skipped .. => none

namespace Context

def IsIntermediate (ctx : Context) (d : Disk) (p : Path) : Prop :=
  ∃ specifier ∈ ctx.intermediateModels, ∃ target,
    ctx.resolveFromRoot? d specifier .model = some target ∧ (p == target) = true

def ExtendsIntermediate (ctx : Context) (d : Disk) (parsed : PathMap SourceFile) (p b : Path) :
    Prop :=
  ctx.IsIntermediate d b ∧
    ∃ base, Project.baseModel? ctx d parsed p = some base ∧ (base == b) = true

end Context

namespace Intermediates

theorem contains_add (found : Intermediates) (specifier : String) (target? : Option Path)
    (p : Path) :
    (found.add specifier target?).paths.contains p = true ↔
      found.paths.contains p = true ∨ ∃ target, target? = some target ∧ (p == target) = true := by
  cases target? with
  | none => simp [add]
  | some target =>
    simp only [add]
    split
    next known =>
      constructor
      · exact .inl
      · rintro (old | ⟨other, equal, same⟩)
        · exact old
        · obtain rfl := Option.some.inj equal
          rwa [List.contains_congr same]
    next => simp

theorem contains_foldl_add (resolve : String → Option Path) (specifiers : List String)
    (found : Intermediates) (p : Path) :
    (specifiers.foldl (fun found s => found.add s (resolve s)) found).paths.contains p = true ↔
      found.paths.contains p = true ∨
        ∃ s ∈ specifiers, ∃ target, resolve s = some target ∧ (p == target) = true := by
  induction specifiers generalizing found with
  | nil => simp
  | cons s rest ih =>
    rw [List.foldl_cons, ih, contains_add, or_assoc]
    simp only [List.mem_cons, exists_eq_or_imp]

theorem contains_ofContext (ctx : Context) (d : Disk) (p : Path) :
    (ofContext ctx d).paths.contains p = true ↔ ctx.IsIntermediate d p := by
  rw [ofContext, contains_foldl_add]
  simp [Context.IsIntermediate]

end Intermediates

theorem Project.baseModel?_congr (ctx : Context) (d : Disk) (parsed : PathMap SourceFile)
    (p q : Path) (same : (p == q) = true) :
    baseModel? ctx d parsed p = baseModel? ctx d parsed q := by
  rw [baseModel?, baseModel?, PathMap.get?_congr parsed same]

namespace Context

theorem based_ofContext (ctx : Context) (d : Disk) (parsed : PathMap SourceFile) :
    BaseOrder.Based (Intermediates.ofContext ctx d).paths (Project.baseModel? ctx d parsed) =
      ctx.ExtendsIntermediate d parsed := by
  funext p b
  refine propext ⟨?_, ?_⟩
  · intro based
    refine ⟨(Intermediates.contains_ofContext ctx d b).mp based.contains, ?_⟩
    obtain ⟨base, found, same⟩ := based
    exact ⟨base, (Option.filter_eq_some_iff.mp found).1, same⟩
  · rintro ⟨member, base, found, same⟩
    have listed := (Intermediates.contains_ofContext ctx d b).mpr member
    rw [← List.contains_congr same] at listed
    exact ⟨base, Option.filter_eq_some_iff.mpr ⟨found, listed⟩, same⟩

end Context

theorem LoadFault.code?_diagnostic (shown : String) (fault : LoadFault) :
    (fault.diagnostic shown).code? ≠ some intermediateCycle := by
  rcases fault with _ | (_ | _) <;>
    simp [diagnostic, Diagnostic.code?, intermediateCycle, unreadableSource, unsupportedSource,
      brokenSource]

namespace Loaded

structure Grows (before after : Loaded) : Prop where
  kept : ∀ p f, before.parsed.get? p = some f → after.parsed.get? p = some f
  told : ∃ added, after.diagnostics = before.diagnostics ++ added ∧
    ∀ m ∈ added, m.code? ≠ some intermediateCycle

theorem Grows.refl (loaded : Loaded) : Grows loaded loaded :=
  ⟨fun _ _ known => known, [], by simp⟩

theorem Grows.trans {first second third : Loaded} (lower : Grows first second)
    (upper : Grows second third) : Grows first third := by
  obtain ⟨added, result, quiet⟩ := lower.told
  obtain ⟨more, next, silent⟩ := upper.told
  refine ⟨fun p f known => upper.kept p f (lower.kept p f known), added ++ more, ?_, ?_⟩
  · rw [next, result, List.append_assoc]
  · intro m listed
    rcases List.mem_append.mp listed with old | new
    · exact quiet m old
    · exact silent m new

theorem addNew_grows (loaded : Loaded) (ctx : Context) (d : Disk) (p : Path) :
    Grows loaded (loaded.addNew ctx d p) := by
  rw [addNew]
  split
  next => exact .refl loaded
  next fresh =>
    rw [Bool.or_eq_true, not_or, PathMap.contains, Bool.not_eq_true, Option.isSome_eq_false_iff,
      Option.isNone_iff_eq_none] at fresh
    simp only [add]
    cases loadSource d p with
    | ok f =>
      refine ⟨?_, _, rfl, ?_⟩
      · intro q g known
        rw [PathMap.get?_insert]
        split
        next same =>
          -- A file that was taken in before is not taken in again.
          simp [PathMap.get?_congr loaded.parsed same, fresh.1] at known
        next => exact known
      · simp [Diagnostic.code?, intermediateCycle, malformedField]
    | error fault =>
      refine ⟨fun _ _ known => known, _, rfl, ?_⟩
      simpa using fault.code?_diagnostic (ctx.display p)

theorem foldl_addNew_grows (loaded : Loaded) (ctx : Context) (d : Disk) (paths : List Path) :
    Grows loaded (paths.foldl (fun loaded p => loaded.addNew ctx d p) loaded) := by
  induction paths generalizing loaded with
  | nil => exact .refl loaded
  | cons p rest ih => exact (loaded.addNew_grows ctx d p).trans (ih _)

end Loaded

namespace Context

theorem ofContext_basesFirst (ctx : Context) (d : Disk) (parsed : PathMap SourceFile) :
    let order := BaseOrder.ofMembers (Intermediates.ofContext ctx d).paths
      (Project.baseModel? ctx d parsed)
    BaseOrder.BasesFirst (ctx.IsIntermediate d) (ctx.ExtendsIntermediate d parsed) order.ordered
      order.broken := by
  have members : ((Intermediates.ofContext ctx d).paths.contains · = true) =
      ctx.IsIntermediate d :=
    funext fun p => propext (Intermediates.contains_ofContext ctx d p)
  rw [← based_ofContext, ← members]
  exact BaseOrder.ofMembers_basesFirst (Project.baseModel?_congr ctx d parsed)

theorem resolveIntermediates_basesFirst (ctx : Context) (d : Disk) (sources : Loaded) :
    let (loaded, ordered) := ctx.resolveIntermediates d sources
    ∃ added reported,
      BaseOrder.BasesFirst (ctx.IsIntermediate d) (ctx.ExtendsIntermediate d loaded.parsed) ordered
        reported ∧
      loaded.diagnostics = sources.diagnostics ++ added ∧
      added.filter (fun m => m.code? == some intermediateCycle) =
        reported.map (Intermediates.cycleDiagnostic ctx) ∧
      ∀ p f, sources.parsed.get? p = some f → loaded.parsed.get? p = some f := by
  have grows := Loaded.foldl_addNew_grows
    { sources with diagnostics := sources.diagnostics ++
        (Intermediates.ofContext ctx d).unresolved.map Intermediates.unresolvedDiagnostic }
    ctx d (Intermediates.ofContext ctx d).paths
  obtain ⟨read, told, quiet⟩ := grows.told
  simp only [resolveIntermediates, told, List.append_assoc]
  refine ⟨_, _, ctx.ofContext_basesFirst d _, rfl, ?_, grows.kept⟩
  -- Of what is told, only what the order itself adds is about circles.
  have others : read.filter (fun m => m.code? == some intermediateCycle) = [] := by
    simpa using quiet
  rw [List.filter_append, List.filter_append, others]
  simp [List.filter_map, Function.comp_def, Diagnostic.code?, Intermediates.unresolvedDiagnostic,
    Intermediates.cycleDiagnostic, intermediateCycle, unresolvedIntermediate]

end Context

end SchemaMigration
