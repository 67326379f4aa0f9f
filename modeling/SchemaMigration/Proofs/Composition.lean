import SchemaMigration.Proofs.DryRun

set_option autoImplicit false

namespace SchemaMigration

section Names

variable {α : Type} [BEq α] [LawfulBEq α]

theorem eraseDups_concat (xs : List α) (x : α) :
    (xs ++ [x]).eraseDups = if x ∈ xs then xs.eraseDups else xs.eraseDups ++ [x] := by
  rw [List.eraseDups_append]
  by_cases known : x ∈ xs <;> simp [known, List.removeAll, List.eraseDups_cons]

theorem nodup_eraseDups (xs : List α) : xs.eraseDups.Nodup := by
  induction xs using List.reverseRecOn with
  | nil => simp
  | append_singleton xs x ih =>
    rw [eraseDups_concat]
    split
    next => exact ih
    next fresh =>
      refine List.nodup_append.mpr ⟨ih, by simp, ?_⟩
      rintro a member b last rfl
      rw [List.mem_singleton.mp last, List.mem_eraseDups] at member
      exact fresh member

end Names

namespace Project

theorem names_foldl_addTrait (base? : Option TraitEntry) (entries : List TraitEntry) :
    (entries.foldl addTrait base?.toList).map TraitEntry.name =
      (base?.toList.map TraitEntry.name ++ entries.map TraitEntry.name).eraseDups := by
  -- A trait is compared with those added before it, so the induction takes the last one off.
  induction entries using List.reverseRecOn with
  | nil => cases base? <;> simp [List.eraseDups_cons]
  | append_singleton entries entry ih =>
    rw [List.foldl_append, List.map_append, ← List.append_assoc, List.map_singleton,
      eraseDups_concat, ← ih, List.foldl_cons, List.foldl_nil, addTrait]
    have known : (entries.foldl addTrait base?.toList).any (·.name == entry.name) = true ↔
        entry.name ∈ base?.toList.map TraitEntry.name ++ entries.map TraitEntry.name := by
      rw [← List.mem_eraseDups, ← ih]
      simp
    simp only [known]
    split <;> simp

end Project

-- The model that a file extends is a base of models that declares something and comes before the
-- file.
structure HasConvertedBase (ctx : Context) (d : Disk) (p b : Path) : Prop where
  base : Project.baseModel? ctx d (ctx.prepare d).loaded.parsed p = some b
  intermediate : ctx.IsIntermediate d b
  declared : ∃ f, (ctx.prepare d).loaded.parsed.get? b = some f ∧ f.declaration.isSome = true
  first : ¬ctx.IsIntermediate d p ∨ BaseOrder.Precedes (ctx.prepare d).intermediates b p

def Prepared.boundMixin? (prepared : Prepared) (ctx : Context) (d : Disk) (f : SourceFile)
    (name : String) : Option Path :=
  (f.importOf? name).bind fun (i, _) =>
    (ctx.resolveMixin? d i.specifier f.path).filter fun mixin =>
      prepared.discovered.mixins.contains mixin && prepared.loaded.parsed.contains mixin

def Prepared.mixinTrait (prepared : Prepared) (ctx : Context) (mixin : Path) : TraitEntry where
  name := entityName mixin ctx.mixins.roots ctx.extensions
  schemaPath := (ctx.place .trait "" mixin).file
  typesPath :=
    if (prepared.loaded.parsed.get? mixin).any (·.language == .typeScript) then
      some (ctx.place .traitType "" mixin).file
    else none

def Prepared.mixinNames (prepared : Prepared) (ctx : Context) (d : Disk) (f : SourceFile)
    (mixins : List String) : List String :=
  (mixins.filterMap (prepared.boundMixin? ctx d f)).map fun mixin =>
    entityName mixin ctx.mixins.roots ctx.extensions

namespace RunState

variable {ctx : Context} {prepared : Prepared} {d : Disk} {done : List Path} {state : RunState}

theorem mixinTrait?_eq (state : RunState) (f : SourceFile) (name : String) :
    (state.project ctx prepared).mixinTrait? f name =
      (prepared.boundMixin? ctx state.disk f name).map (prepared.mixinTrait ctx) := by
  simp only [Project.mixinTrait?, Prepared.boundMixin?, project]
  cases f.importOf? name with
  | none => rfl
  | some bound =>
    obtain ⟨i, binding⟩ := bound
    cases resolved : ctx.resolveMixin? state.disk i.specifier f.path with
    | none => simp [resolved]
    | some mixin =>
      by_cases known : prepared.discovered.mixins.contains mixin = true
      · cases read : prepared.loaded.parsed.get? mixin <;>
          simp [resolved, known, read, PathMap.contains, Option.filter, Prepared.mixinTrait]
      · simp [resolved, known, Option.filter]

theorem names_mixinTraits (disk : state.disk = d) (f : SourceFile) (mixins : List String) :
    (mixins.filterMap ((state.project ctx prepared).mixinTrait? f)).map TraitEntry.name =
      prepared.mixinNames ctx d f mixins := by
  rw [Prepared.mixinNames, List.map_filterMap, List.map_filterMap]
  refine List.filterMap_congr fun name _ => ?_
  rw [mixinTrait?_eq, disk, Option.map_map]
  rfl

end RunState

namespace Visit

variable {ctx : Context} {d : Disk} {v : Visit}

theorem baseTrait?_eq_some_iff (dry : ctx.dryRun = true) (member : v ∈ ctx.visits d)
    (proper : v.role ≠ .mixin) {f : SourceFile} (same : (f.path == v.path) = true)
    (entry : TraitEntry) :
    (v.before.project ctx (ctx.prepare d)).baseTrait? f = some entry ↔
      ∃ b, HasConvertedBase ctx d v.path b ∧ (ctx.prepare d).traitOf? ctx b = some entry := by
  obtain ⟨front, back, split, registered⟩ := ctx.registered_visit dry member
  obtain ⟨reported, order⟩ := ctx.prepare_basesFirst d
  rw [registered.baseTrait? same, Option.bind_eq_some_iff]
  constructor
  next =>
    rintro ⟨b, base, held⟩
    split at held
    next known =>
      rw [Bool.and_eq_true] at known
      have first := (Context.basesOf_front_iff split proper known.1).mp known.2
      obtain ⟨g, read, become⟩ := Option.bind_eq_some_iff.mp held
      obtain ⟨declaration, declared, -⟩ := Option.map_eq_some_iff.mp become
      exact ⟨b, ⟨base, (order.member b).mp known.1, ⟨g, read, by simp [declared]⟩, first⟩, held⟩
    next => cases held
  next =>
    rintro ⟨b, has, held⟩
    have known := (order.member b).mpr has.intermediate
    have done := (Context.basesOf_front_iff split proper known).mpr has.first
    exact ⟨b, has.base, by rw [known, done]; exact held⟩

-- The trait is named after the path that its file was read under, which is the one that the import
-- resolves to.
theorem traitOf?_base {p b : Path} (has : HasConvertedBase ctx d p b) :
    ∃ g, (g.path == b) = true ∧ (d.ProperNames → g.path = b) ∧
      (ctx.prepare d).traitOf? ctx b = some (ctx.traitEntry .intermediate g) := by
  obtain ⟨g, read, declared⟩ := has.declared
  obtain ⟨declaration, declared⟩ := Option.isSome_iff_exists.mp declared
  obtain ⟨same, canonical⟩ := ctx.prepare_keyed d b g read
  refine ⟨g, same, ?_, by simp [Prepared.traitOf?, read, declared]⟩
  intro names
  obtain ⟨f, -, below⟩ := Option.bind_eq_some_iff.mp has.base
  obtain ⟨declaration, -, below⟩ := Option.bind_eq_some_iff.mp below
  obtain ⟨name, -, below⟩ := Option.bind_eq_some_iff.mp below
  obtain ⟨⟨i, binding⟩, -, resolved⟩ := Option.bind_eq_some_iff.mp below
  exact (canonical names).eq_of_beq (Context.resolve?_isCanonical names.workingDirectory resolved)
    same

theorem names_traitsOf (dry : ctx.dryRun = true) (member : v ∈ ctx.visits d)
    (proper : v.role ≠ .mixin) (f : SourceFile) (mixins : List String) :
    ((v.before.project ctx (ctx.prepare d)).traitsOf f v.role mixins).map TraitEntry.name =
      (((v.before.project ctx (ctx.prepare d)).baseTrait? f).toList.map TraitEntry.name ++
        (ctx.prepare d).mixinNames ctx d f mixins).eraseDups := by
  obtain ⟨front, -, -, registered⟩ := ctx.registered_visit dry member
  have based : (v.role == .mixin) = false := by simpa using proper
  rw [Project.traitsOf, based, if_neg Bool.false_ne_true, Project.names_foldl_addTrait,
    RunState.names_mixinTraits registered.disk]

theorem composed_of_base_and_mixins (dry : ctx.dryRun = true) (member : v ∈ ctx.visits d)
    (proper : v.role ≠ .mixin) {f : SourceFile} {declaration : Declaration}
    (read : (ctx.prepare d).loaded.parsed.get? v.path = some f)
    (declared : f.declaration = some declaration) :
    let project := v.before.project ctx (ctx.prepare d)
    let mixins := (ctx.prepare d).mixinNames ctx d f declaration.mixins
    ∃ plan extension?, project.plan f v.role = .ok plan ∧
      plan.artifacts.head?.map Artifact.code =
        some (v.role.descriptorSource (project.descriptorOf f v.role declaration extension?)) ∧
      let traits := (project.descriptorOf f v.role declaration extension?).traits
      (∀ b, HasConvertedBase ctx d v.path b →
        ∃ written, (written == b) = true ∧ (d.ProperNames → written = b) ∧
          traits = (entityName written ctx.models.roots ctx.extensions :: mixins).eraseDups) ∧
      ((¬∃ b, HasConvertedBase ctx d v.path b) → traits = mixins.eraseDups) ∧
      traits.Nodup := by
  intro project mixins
  have plan : project.plan f v.role = .ok (project.planDeclared f v.role declaration) := by
    simp only [Project.plan, declared]
  refine ⟨_, _, plan, rfl, ?_⟩
  intro traits
  have names := names_traitsOf dry member proper f declaration.mixins
  have base := baseTrait?_eq_some_iff dry member proper (ctx.prepare_keyed d v.path f read).1
  refine ⟨?_, ?_, ?_⟩
  next =>
    intro b has
    obtain ⟨g, same, canonical, held⟩ := traitOf?_base has
    refine ⟨g.path, same, canonical, ?_⟩
    rw [(base _).mpr ⟨b, has, held⟩] at names
    exact names
  next =>
    intro bare
    have none : project.baseTrait? f = none := by
      rw [Option.eq_none_iff_forall_ne_some]
      intro entry held
      obtain ⟨b, has, -⟩ := (base entry).mp held
      exact bare ⟨b, has⟩
    rw [none] at names
    exact names
  next =>
    have distinct := nodup_eraseDups ((project.baseTrait? f).toList.map TraitEntry.name ++ mixins)
    rwa [← names] at distinct

end Visit

def taggedDisk : Disk where
  entries := [
    (["m"], .directory),
    (["m", "base.js"], .file "export default class{}".toUTF8),
    (["m", "user.js"], .file
      "import B from './base';import T from '../x/tag';export default B.extend(T,T)".toUTF8),
    (["x"], .directory),
    (["x", "tag.js"], .file "export default M.create()".toUTF8)]
  workingDirectory := []

def taggedContext : Context where
  projectRoot := ⟨"/"⟩
  extensions := [".js"]
  models := ⟨none, none, [], []⟩
  mixins := ⟨none, none, [], [⟨"/x"⟩]⟩
  output := {}
  importMappings := []
  intermediateModels := ["./m/user", "./m/base"]
  exclude := []
  dryRun := true

theorem tagged_properNames : taggedDisk.ProperNames := by
  constructor <;> simp only [taggedDisk, Place.IsProper] <;> decide

theorem tagged_prepared :
    let prepared := taggedContext.prepare taggedDisk
    prepared.intermediates.map Path.text = ["/m/base.js", "/m/user.js"] ∧
      ((prepared.loaded.parsed.get? ⟨"/m/user.js"⟩).bind fun f => f.declaration.map fun declared =>
        prepared.mixinNames taggedContext taggedDisk f declared.mixins) = some ["tag", "tag"] ∧
      (Project.baseModel? taggedContext taggedDisk prepared.loaded.parsed ⟨"/m/user.js"⟩).map
        Path.text = some "/m/base.js" ∧
      (prepared.loaded.parsed.get? ⟨"/m/base.js"⟩).any (·.declaration.isSome) = true := by
  decide +kernel

theorem tagged_intermediates :
    (taggedContext.prepare taggedDisk).intermediates = [⟨"/m/base.js"⟩, ⟨"/m/user.js"⟩] :=
  List.map_injective_iff.mpr (fun ⟨_⟩ ⟨_⟩ => congrArg Path.mk) tagged_prepared.1

theorem tagged_hasConvertedBase :
    HasConvertedBase taggedContext taggedDisk ⟨"/m/user.js"⟩ ⟨"/m/base.js"⟩ := by
  obtain ⟨-, -, found, declared⟩ := tagged_prepared
  obtain ⟨reported, order⟩ := taggedContext.prepare_basesFirst taggedDisk
  refine ⟨?_, ?_, ?_, .inr ?_⟩
  · obtain ⟨⟨text⟩, base, rfl⟩ := Option.map_eq_some_iff.mp found
    exact base
  · rw [← order.member, tagged_intermediates]
    decide
  · exact (Option.any_eq_true _ _).mp declared
  · rw [tagged_intermediates, BaseOrder.Precedes]
    decide

theorem composed_of_base_and_mixins_tagged :
    ∃ v f declaration, taggedContext.dryRun = true ∧ v ∈ taggedContext.visits taggedDisk ∧
      v.role = .intermediate ∧ v.path = ⟨"/m/user.js"⟩ ∧
      (taggedContext.prepare taggedDisk).loaded.parsed.get? v.path = some f ∧
      f.declaration = some declaration ∧ ∃ extension?,
        ((v.before.project taggedContext (taggedContext.prepare taggedDisk)).descriptorOf f
          v.role declaration extension?).traits = ["base", "tag"] := by
  obtain ⟨f, read, rest⟩ := Option.bind_eq_some_iff.mp tagged_prepared.2.1
  obtain ⟨declaration, declared, names⟩ := Option.map_eq_some_iff.mp rest
  have listed : (Role.intermediate, Path.mk "/m/user.js") ∈
      (taggedContext.prepare taggedDisk).agenda := by
    simp [Prepared.agenda, tagged_intermediates]
  obtain ⟨v, member, role, path⟩ := Context.exists_visit listed
  rw [← path] at read
  obtain ⟨plan, extension?, -, -, composed, -⟩ :=
    Visit.composed_of_base_and_mixins rfl member (by simp [role]) read declared
  obtain ⟨written, -, canonical, traits⟩ := composed _ (path ▸ tagged_hasConvertedBase)
  refine ⟨v, f, declaration, rfl, member, role, path, read, declared, extension?, ?_⟩
  rw [traits, canonical tagged_properNames, names]
  decide +kernel

end SchemaMigration
