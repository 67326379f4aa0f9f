import SchemaMigration.Proofs.ConfiguredRoots
import SchemaMigration.Proofs.Rearrangement

set_option autoImplicit false

namespace SchemaMigration

namespace Disk

variable {d : Disk}

inductive Descends (d : Disk) (top : Place) : Place → Prop
  | here (directory : d.entryAt? top = some .directory) : Descends d top top
  | down {place : Place} {name : String} (above : Descends d top place)
      (entered : name ∉ skippedDirectories)
      (directory : d.entryAt? (place ++ [name]) = some .directory) :
      Descends d top (place ++ [name])

theorem Descends.top_directory {top place : Place} (descends : d.Descends top place) :
    d.entryAt? top = some .directory := by
  induction descends with
  | here directory => exact directory
  | down _ _ _ ih => exact ih

theorem isEntered_concat {top : Place} {below : List String} {name last : String}
    (entered : d.isEntered top (below ++ [name]) = true) (named : name ∉ skippedDirectories)
    (directory : d.isDirectoryAt (top ++ below ++ [name]) = true) :
    d.isEntered top (below ++ [name] ++ [last]) = true := by
  induction below generalizing top with
  | nil => simpa [isEntered, named] using directory
  | cons first rest ih =>
    cases rest with
    | nil => simp_all [isEntered]
    | cons second rest =>
      simp only [List.cons_append, isEntered, Bool.and_eq_true] at entered ⊢
      refine ⟨entered.1, ?_⟩
      exact ih entered.2 (by simpa using directory)

theorem Descends.isEntered {top place : Place} (descends : d.Descends top place) (last : String) :
    ∃ below, place = top ++ below ∧ d.isEntered top (below ++ [last]) = true := by
  induction descends generalizing last with
  | here => exact ⟨[], by simp, rfl⟩
  | @down place name _ named directory ih =>
    obtain ⟨below, rfl, entered⟩ := ih name
    refine ⟨below ++ [name], by simp, ?_⟩
    exact isEntered_concat entered named (by rw [isDirectoryAt, directory])

theorem mem_filesBelow {top directory : Place} {name : String} {contents : ByteArray}
    (descends : d.Descends top directory)
    (file : d.entryAt? (directory ++ [name]) = some (.file contents)) :
    directory ++ [name] ∈ d.filesBelow top := by
  obtain ⟨below, rfl, entered⟩ := descends.isEntered name
  have held := mem_entries_of_entryAt? (by simp) file
  have rest : top.isPrefixOf? (top ++ below ++ [name]) = some (below ++ [name]) := by
    rw [List.isPrefixOf?_eq_some_iff_append_eq, List.append_assoc]
  rw [filesBelow, List.mem_filterMap]
  refine ⟨_, held, ?_⟩
  simp only [rest]
  cases below with
  | nil => simp [isEntered]
  | cons first below =>
    rw [List.cons_append] at entered ⊢
    simp [entered]

theorem fileName?_pathOf {directory : Place} {name : String}
    (proper : Place.IsProper (directory ++ [name])) :
    (pathOf (directory ++ [name])).fileName? = some name := by
  have last : (pathOf (directory ++ [name])).components.getLast? = some (.name name) := by
    rw [components_pathOf proper, List.map_append, List.map_singleton, ← List.cons_append,
      List.getLast?_concat]
  rw [Path.fileName?, last]

end Disk

theorem isSourceFile_iff {p : Path} {name : String} (named : p.fileName? = some name)
    {extensions : List String} :
    isSourceFile p extensions = true ↔
      (∃ extension ∈ extensions, extension.toList <:+ name.toList) ∧
        ¬".d.ts".toList <:+ name.toList := by
  rw [isSourceFile, named]
  simp only [Bool.and_eq_true, Bool.not_eq_true', Bool.eq_false_iff, List.any_eq_true, ne_eq,
    List.isSuffixOf_iff_suffix]
  exact and_comm

def Context.IsSourceBelow (ctx : Context) (d : Disk) (top place : Place) : Prop :=
  ∃ directory name contents, place = directory ++ [name] ∧ d.Descends top directory ∧
    d.entryAt? place = some (.file contents) ∧
    (∃ extension ∈ ctx.extensions, extension.toList <:+ name.toList) ∧
    ¬".d.ts".toList <:+ name.toList

namespace Discovered

def ListsOnce (found : Discovered) (p : Path) : Prop :=
  p ∈ found.models ∧ p ∉ found.mixins ∧ p ∉ found.excluded ∨
    p ∉ found.models ∧ p ∈ found.mixins ∧ p ∉ found.excluded ∨
    p ∉ found.models ∧ p ∉ found.mixins ∧ p ∈ found.excluded

end Discovered

namespace Path

theorem mem_sortedSet_iff {paths : List Path} (canonical : ∀ p ∈ paths, p.IsCanonical) {p : Path} :
    p ∈ sortedSet paths ↔ p ∈ paths := by
  constructor
  next => exact mem_of_mem_sortedSet
  next =>
    intro member
    have own := canonical p member
    rw [mem_iff_contains (fun q inside => canonical q (mem_of_mem_sortedSet inside)) own,
      contains_sortedSet]
    exact (mem_iff_contains canonical own).mp member

end Path

namespace Context

variable {ctx : Context} {d : Disk} {root p : Path} {top place : Place}

theorem IsSourceBelow.isProper (names : d.ProperNames) (source : ctx.IsSourceBelow d top place) :
    place.IsProper := by
  obtain ⟨directory, name, contents, rfl, -, file, -⟩ := source
  exact names.entries _ (Disk.mem_entries_of_entryAt? (by simp) file)

theorem mem_sourcesBelow (names : d.ProperNames) (leads : d.find root = .ok top)
    (source : ctx.IsSourceBelow d top place) : Disk.pathOf place ∈ ctx.sourcesBelow d root := by
  have proper := source.isProper names
  obtain ⟨directory, name, contents, rfl, descends, file, ending, typed⟩ := source
  obtain ⟨extension, listed, ends⟩ := ending
  have isDirectory : d.isDirectory root = true := by
    simp only [Disk.isDirectory, Disk.stat?, leads, descends.top_directory]
  rw [sourcesBelow, if_pos isDirectory, leads]
  apply List.mem_filter.mpr
  refine ⟨List.mem_map_of_mem (Disk.mem_filesBelow descends file), ?_⟩
  exact (isSourceFile_iff (Disk.fileName?_pathOf proper)).mpr ⟨⟨extension, listed, ends⟩, typed⟩

theorem deepest?_isSome {roots : List Path} :
    (deepest? p roots).isSome = roots.any p.startsWith := by
  rw [deepest?, Bool.eq_iff_iff, Option.isSome_iff_ne_none, ne_eq, List.max?_eq_none_iff]
  simp

theorem isModel_eq (ctx : Context) (p : Path) :
    ctx.isModel p =
      ((ctx.models.roots ++ ctx.mixins.roots).any p.startsWith && !ctx.isMixin p) := by
  rw [List.any_append, ← deepest?_isSome, ← deepest?_isSome, isModel, isMixin]
  cases deepest? p ctx.models.roots <;> cases deepest? p ctx.mixins.roots <;> simp

theorem any_of_isMixin (isMixin : ctx.isMixin p = true) :
    (ctx.models.roots ++ ctx.mixins.roots).any p.startsWith = true := by
  rw [List.any_append, ← deepest?_isSome, ← deepest?_isSome]
  rw [Context.isMixin] at isMixin
  split at isMixin <;> simp_all

def Finds (ctx : Context) (d : Disk) (p : Path) : Prop :=
  ∃ root ∈ ctx.models.roots ++ ctx.mixins.roots, p ∈ ctx.sourcesBelow d root

theorem mem_discover (ctx : Context) (names : d.ProperNames) (p : Path) :
    (p ∈ (ctx.discover d).models ↔
        ctx.Finds d p ∧ ctx.isExcluded p = false ∧ ctx.isModel p = true) ∧
      (p ∈ (ctx.discover d).mixins ↔
        ctx.Finds d p ∧ ctx.isExcluded p = false ∧ ctx.isMixin p = true) ∧
      (p ∈ (ctx.discover d).excluded ↔ ctx.Finds d p ∧ ctx.isExcluded p = true) := by
  have all (q : Path) : q ∈ (ctx.models.roots ++ ctx.mixins.roots).flatMap (ctx.sourcesBelow d) ↔
      ctx.Finds d q := List.mem_flatMap
  have canonical : ∀ q ∈ (ctx.models.roots ++ ctx.mixins.roots).flatMap (ctx.sourcesBelow d),
      q.IsCanonical := by
    intro q member
    obtain ⟨root, -, below⟩ := (all q).mp member
    exact sourcesBelow_isCanonical names below
  have kept (keep : Path → Bool) : p ∈ Path.sortedSet
      (((ctx.models.roots ++ ctx.mixins.roots).flatMap (ctx.sourcesBelow d)).filter keep) ↔
        ctx.Finds d p ∧ keep p = true := by
    rw [Path.mem_sortedSet_iff fun q member => canonical q (List.mem_of_mem_filter member),
      List.mem_filter, all]
  have plain := kept fun p => !ctx.isExcluded p
  rw [Bool.not_eq_true'] at plain
  refine ⟨?_, ?_, kept _⟩
  next =>
    rw [← and_assoc, ← plain]
    exact List.mem_filter
  next =>
    rw [← and_assoc, ← plain]
    exact List.mem_filter

theorem listsOnce_iff (names : d.ProperNames) (listed : root ∈ ctx.models.roots ++ ctx.mixins.roots)
    (found : p ∈ ctx.sourcesBelow d root) :
    ((ctx.discover d).ListsOnce p ↔ ctx.isExcluded p = true ∨
        ∃ base ∈ ctx.models.roots ++ ctx.mixins.roots, p.startsWith base = true) ∧
      (¬(ctx.discover d).ListsOnce p →
        p ∉ (ctx.discover d).models ∧ p ∉ (ctx.discover d).mixins ∧
          p ∉ (ctx.discover d).excluded) := by
  obtain ⟨models, mixins, excluded⟩ := mem_discover ctx names p
  rw [and_iff_right ⟨root, listed, found⟩] at models mixins excluded
  have mixed : ctx.isMixin p = true → _ := any_of_isMixin
  rw [Discovered.ListsOnce, models, mixins, excluded, isModel_eq, ← List.any_eq_true]
  generalize (ctx.models.roots ++ ctx.mixins.roots).any p.startsWith = within at mixed ⊢
  generalize ctx.isMixin p = mixin at mixed ⊢
  generalize ctx.isExcluded p = out
  cases within <;> cases mixin <;> cases out <;> simp at mixed ⊢

end Context

theorem Disk.Descends.startsWith {d : Disk} {top directory : Place} {name : String}
    (descends : d.Descends top directory) (proper : Place.IsProper (directory ++ [name])) :
    (Disk.pathOf (directory ++ [name])).startsWith (Disk.pathOf top) = true := by
  obtain ⟨below, rfl, -⟩ := descends.isEntered name
  have above : Place.IsProper top := fun step member => proper step (by simp [member])
  rw [Path.startsWith, Disk.components_pathOf proper, Disk.components_pathOf above]
  simp

theorem source_listed_once {d : Disk} {config : Config} {ctx : Context} {root : Path}
    {top place : Place} (names : d.ProperNames) (built : Context.ofConfig d config = .ok ctx)
    (listed : root ∈ ctx.models.roots ++ ctx.mixins.roots) (leads : d.find root = .ok top)
    (source : ctx.IsSourceBelow d top place) :
    let p := Disk.pathOf place
    let found := ctx.discover d
    (p ∈ found.excluded ↔ ∃ glob ∈ ctx.exclude, glob.isMatch (ctx.relative p).text = true) ∧
      (found.ListsOnce p ↔ p ∈ found.excluded ∨
        ∃ base ∈ ctx.models.roots ++ ctx.mixins.roots, p.startsWith base = true) ∧
      (¬found.ListsOnce p → p ∉ found.models ∧ p ∉ found.mixins ∧ p ∉ found.excluded) ∧
      ((root == Disk.pathOf top) = true → found.ListsOnce p) ∧
      ((root == Disk.pathOf top) = true ∨ config.models.Unresolved d ctx.projectRoot root ∨
        config.mixins.Unresolved d ctx.projectRoot root) := by
  intro p found
  have below := Context.mem_sourcesBelow names leads source
  obtain ⟨-, -, excluded⟩ := Context.mem_discover ctx names p
  rw [and_iff_right ⟨root, listed, below⟩] at excluded
  obtain ⟨once, lost⟩ := Context.listsOnce_iff names listed below
  rw [← excluded] at once
  refine ⟨?_, once, lost, ?_, ?_⟩
  next => rw [excluded, Context.isExcluded, List.any_eq_true]
  next =>
    intro canonical
    apply once.mpr
    have proper := source.isProper names
    obtain ⟨directory, name, contents, rfl, descends, -⟩ := source
    have within := descends.startsWith proper
    rw [Path.startsWith, ← Path.beq_iff_components.mp canonical] at within
    exact .inr ⟨root, listed, within⟩
  next =>
    have configured := Context.configured_of_ofConfig built
    have absolute := configured.isAbsolute_projectRoot
    have canonical (resolved : d.IsCanonicalOn root) : (root == Disk.pathOf top) = true := by
      obtain ⟨directory, own, direct, rfl⟩ := resolved
      rw [Disk.eq_of_find_pathOf direct own leads]
      exact BEq.rfl
    rw [configured.models, configured.mixins, List.mem_append] at listed
    rcases listed with model | mixin
    next =>
      rcases SourceRoots.roots_cases names.workingDirectory absolute model with written | resolved
      next => exact .inr (.inl written)
      next => exact .inl (canonical resolved)
    next =>
      rcases SourceRoots.roots_cases names.workingDirectory absolute mixin with written | resolved
      next => exact .inr (.inr written)
      next => exact .inl (canonical resolved)

def linkedDisk : Disk where
  entries := [
    (["real"], .directory),
    (["real", "sub"], .directory),
    (["real", "sub", "user.js"], .file "".toUTF8),
    (["linked"], .link ⟨"real"⟩)]
  workingDirectory := []

def linkedConfig (models : SourceConfig) : Config where
  projectRoot := ⟨"/"⟩
  models

def linkedContext (models : SourceRoots) : Context where
  projectRoot := ⟨"/"⟩
  extensions := defaultExtensions
  models
  mixins := { importAlias := none, directory := none, additional := [], roots := [] }
  output := {}
  importMappings := []
  intermediateModels := []
  exclude := []
  dryRun := false

theorem linked_source (models : SourceRoots) :
    (linkedContext models).IsSourceBelow linkedDisk ["real"] ["real", "sub", "user.js"] := by
  have below : linkedDisk.Descends ["real"] (["real"] ++ ["sub"]) :=
    .down (.here rfl) (by decide) rfl
  exact ⟨["real", "sub"], "user.js", "".toUTF8, rfl, below, rfl,
    ⟨".js", List.mem_cons_self, by decide⟩, by decide⟩

theorem source_listed_once_linked :
    ∃ ctx, Context.ofConfig linkedDisk (linkedConfig { directory := some ⟨"linked"⟩ }) = .ok ctx ∧
      ⟨"/real"⟩ ∈ ctx.models.roots ++ ctx.mixins.roots ∧
      linkedDisk.find ⟨"/real"⟩ = .ok ["real"] ∧
      ctx.IsSourceBelow linkedDisk ["real"] ["real", "sub", "user.js"] ∧
      (ctx.discover linkedDisk).ListsOnce (Disk.pathOf ["real", "sub", "user.js"]) := by
  have names : linkedDisk.ProperNames := by
    constructor <;> simp only [linkedDisk, Place.IsProper] <;> decide
  have leads : linkedDisk.find ⟨"/real"⟩ = .ok ["real"] := by with_unfolding_all rfl
  have built : Context.ofConfig linkedDisk (linkedConfig { directory := some ⟨"linked"⟩ }) =
      .ok (linkedContext ⟨none, some ⟨"/real"⟩, [], [⟨"/real"⟩]⟩) := by
    with_unfolding_all rfl
  have listed : (⟨"/real"⟩ : Path) ∈ [(⟨"/real"⟩ : Path)] ++ [] := by simp
  refine ⟨_, built, listed, leads, linked_source _, ?_⟩
  obtain ⟨-, -, -, once, resolved⟩ := source_listed_once names built listed leads
    (linked_source _)
  apply once
  rcases resolved with canonical | unresolved | unresolved
  next => exact canonical
  next => exact absurd unresolved (SourceConfig.not_unresolved (by decide) (by decide +kernel))
  next => exact absurd unresolved (SourceConfig.not_unresolved (by decide) (by decide))

def LosesLinkedSource (models : SourceConfig) : Prop :=
  ∃ ctx root, Context.ofConfig linkedDisk (linkedConfig models) = .ok ctx ∧
    root ∈ ctx.models.roots ++ ctx.mixins.roots ∧ linkedDisk.find root = .ok ["real"] ∧
    ctx.IsSourceBelow linkedDisk ["real"] ["real", "sub", "user.js"] ∧
    (ctx.discover linkedDisk).models = [] ∧ (ctx.discover linkedDisk).mixins = [] ∧
    (ctx.discover linkedDisk).excluded = []

theorem linked_source_lost :
    LosesLinkedSource { additional := [⟨"m/*", ⟨"/linked"⟩⟩] } ∧
      LosesLinkedSource { directory := some ⟨"missing/../linked"⟩ } := by
  have leads : linkedDisk.find ⟨"/linked"⟩ = .ok ["real"] := by with_unfolding_all rfl
  have listed : (⟨"/linked"⟩ : Path) ∈ [(⟨"/linked"⟩ : Path)] ++ [] := by simp
  constructor
  next =>
    have built : Context.ofConfig linkedDisk
        (linkedConfig { additional := [⟨"m/*", ⟨"/linked"⟩⟩] }) =
          .ok (linkedContext ⟨none, none, [⟨"m/*", ⟨"/linked"⟩⟩], [⟨"/linked"⟩]⟩) := by
      with_unfolding_all rfl
    exact ⟨_, _, built, listed, leads, linked_source _, by with_unfolding_all rfl,
      by with_unfolding_all rfl, by with_unfolding_all rfl⟩
  next =>
    have built : Context.ofConfig linkedDisk
        (linkedConfig { directory := some ⟨"missing/../linked"⟩ }) =
          .ok (linkedContext ⟨none, some ⟨"/linked"⟩, [], [⟨"/linked"⟩]⟩) := by
      with_unfolding_all rfl
    exact ⟨_, _, built, listed, leads, linked_source _, by with_unfolding_all rfl,
      by with_unfolding_all rfl, by with_unfolding_all rfl⟩

end SchemaMigration
