import SchemaMigration.Proofs.DiscoveredFiles
import SchemaMigration.Proofs.Resolution
import SchemaMigration.Proofs.WildcardRoots

set_option autoImplicit false

namespace SchemaMigration

namespace Disk

variable {d : Disk} {top middle place : Place}

-- A disk as file systems are: names can stand in paths, no two entries have one place, and the
-- working directory is reached without links.
structure IsFileSystem (d : Disk) : Prop where
  names : d.ProperNames
  nulFree : d.NulFree
  distinct : d.DistinctPlaces
  start : d.Direct d.workingDirectory

theorem IsFileSystem.find_direct (fileSystem : d.IsFileSystem) {p : Path}
    (found : d.find p = .ok place) : d.Direct place := by
  obtain ⟨-, -, walked⟩ := find_eq_ok_iff.mp found
  refine walk_direct maxLinks _ _ _ ?_ walked
  split
  next => exact .root
  next => exact fileSystem.start

theorem entryAt?_of_isDirectoryAt (directory : d.isDirectoryAt place = true) :
    d.entryAt? place = some .directory := by
  rw [isDirectoryAt] at directory
  split at directory
  next there => exact there
  next => cases directory

theorem Descends.trans (upper : d.Descends top middle) (lower : d.Descends middle place) :
    d.Descends top place := by
  induction lower with
  | here => exact upper
  | down _ entered directory ih => exact .down ih entered directory

theorem Descends.direct (descends : d.Descends top place) (direct : d.Direct top) :
    d.Direct place ∧ d.isDirectoryAt place = true := by
  induction descends with
  | here directory => exact ⟨direct, by rw [isDirectoryAt, directory]⟩
  | down _ _ directory ih =>
    have plain : ∀ target, Entry.directory ≠ .link target := by
      rintro target ⟨⟩
    exact ⟨.step ih.1 ih.2 directory plain, by rw [isDirectoryAt, directory]⟩

theorem isEntered_cons {name : String} {rest : List String} (filled : rest ≠ []) :
    d.isEntered top (name :: rest) =
      (!skippedDirectories.contains name && d.isDirectoryAt (top ++ [name])
        && d.isEntered (top ++ [name]) rest) := by
  rw [isEntered]
  exact filled

theorem descends_of_isEntered {below : List String} {last : String}
    (directory : d.entryAt? top = some .directory)
    (entered : d.isEntered top (below ++ [last]) = true) : d.Descends top (top ++ below) := by
  induction below generalizing top with
  | nil =>
    rw [List.append_nil]
    exact .here directory
  | cons name rest ih =>
    rw [List.cons_append, isEntered_cons (by simp)] at entered
    obtain ⟨⟨allowed, within⟩, deeper⟩ :
        (name ∉ skippedDirectories ∧ d.isDirectoryAt (top ++ [name]) = true) ∧
          d.isEntered (top ++ [name]) (rest ++ [last]) = true := by
      simpa using entered
    have step := entryAt?_of_isDirectoryAt within
    have first : d.Descends top (top ++ [name]) := .down (.here directory) allowed step
    have whole := first.trans (ih step deeper)
    rwa [List.append_assoc, List.singleton_append] at whole

theorem exists_of_mem_filesBelow (distinct : d.DistinctPlaces)
    (directory : d.entryAt? top = some .directory) (member : place ∈ d.filesBelow top) :
    ∃ above name contents, place = above ++ [name] ∧ d.Descends top above ∧
      d.entryAt? place = some (.file contents) := by
  obtain ⟨⟨held, entry⟩, listed, kept⟩ := List.mem_filterMap.mp member
  dsimp only at kept
  split at kept
  next contents name rest below =>
    obtain ⟨entered, ⟨⟩⟩ := Option.ite_none_right_eq_some.mp kept
    rw [List.isPrefixOf?_eq_some_iff_append_eq] at below
    obtain ⟨front, last, split⟩ : ∃ front last, name :: rest = front ++ [last] :=
      ⟨_, _, (List.dropLast_append_getLast (by simp)).symm⟩
    rw [split] at entered below
    subst below
    have descends := descends_of_isEntered directory entered
    rw [← List.append_assoc] at listed ⊢
    exact ⟨top ++ front, last, contents, rfl, descends, (entryAt?_concat_iff distinct).mpr listed⟩
  next => cases kept

end Disk

namespace Path

structure IsDeepestRoot (p : Path) (roots : List Path) (root : Path) : Prop where
  listed : root ∈ roots
  holds : p.startsWith root = true
  deepest : ∀ other ∈ roots, p.startsWith other = true → other.depth ≤ root.depth

end Path

namespace Context

variable {ctx : Context} {d : Disk} {p : Path}

theorem deepest?_eq_some_iff {roots : List Path} {depth : Nat} :
    deepest? p roots = some depth ↔ ∃ root, p.IsDeepestRoot roots root ∧ root.depth = depth := by
  rw [deepest?, List.max?_eq_some_iff]
  constructor
  next =>
    rintro ⟨reached, greatest⟩
    obtain ⟨root, member, rfl⟩ := List.mem_map.mp reached
    obtain ⟨listed, holds⟩ := List.mem_filter.mp member
    refine ⟨root, ⟨listed, holds, ?_⟩, rfl⟩
    intro other given within
    exact greatest _ (List.mem_map_of_mem (List.mem_filter.mpr ⟨given, within⟩))
  next =>
    rintro ⟨root, ⟨listed, holds, deepest⟩, rfl⟩
    refine ⟨List.mem_map_of_mem (List.mem_filter.mpr ⟨listed, holds⟩), ?_⟩
    intro depth reached
    obtain ⟨other, member, rfl⟩ := List.mem_map.mp reached
    obtain ⟨given, within⟩ := List.mem_filter.mp member
    exact deepest other given within

theorem deepest?_eq_none_iff {roots : List Path} :
    deepest? p roots = none ↔ ∀ root ∈ roots, p.startsWith root = false := by
  rw [← Option.not_isSome_iff_eq_none, deepest?_isSome]
  simp

-- A root of mixins holds the path, and no root of models that holds it is as deep.
def RanksAsMixin (ctx : Context) (p : Path) : Prop :=
  ∃ root, p.IsDeepestRoot ctx.mixins.roots root ∧
    ((∀ other ∈ ctx.models.roots, p.startsWith other = false) ∨
      ∃ other, p.IsDeepestRoot ctx.models.roots other ∧ other.depth < root.depth)

theorem isMixin_iff : ctx.isMixin p = true ↔ ctx.RanksAsMixin p := by
  constructor
  next =>
    intro mixin
    rw [isMixin] at mixin
    split at mixin
    next models mixins below above =>
      obtain ⟨other, own, rfl⟩ := deepest?_eq_some_iff.mp below
      obtain ⟨root, deepest, rfl⟩ := deepest?_eq_some_iff.mp above
      exact ⟨root, deepest, .inr ⟨other, own, by simpa using mixin⟩⟩
    next none above =>
      obtain ⟨root, deepest, -⟩ := deepest?_eq_some_iff.mp above
      exact ⟨root, deepest, .inl (deepest?_eq_none_iff.mp none)⟩
    next => cases mixin
  next =>
    rintro ⟨root, deepest, none | ⟨other, own, deeper⟩⟩
    next =>
      rw [isMixin, deepest?_eq_none_iff.mpr none, deepest?_eq_some_iff.mpr ⟨root, deepest, rfl⟩]
    next =>
      rw [isMixin, deepest?_eq_some_iff.mpr ⟨other, own, rfl⟩,
        deepest?_eq_some_iff.mpr ⟨root, deepest, rfl⟩]
      simpa using deeper

def IsSourcePath (ctx : Context) (d : Disk) (p : Path) : Prop :=
  ∃ root ∈ ctx.models.roots ++ ctx.mixins.roots, ∃ top place, d.find root = .ok top ∧
    ctx.IsSourceBelow d top place ∧ p = Disk.pathOf place

theorem mem_sourcesBelow_iff (fileSystem : d.IsFileSystem) {root : Path} :
    p ∈ ctx.sourcesBelow d root ↔ ∃ top place, d.find root = .ok top ∧
      ctx.IsSourceBelow d top place ∧ p = Disk.pathOf place := by
  constructor
  next =>
    intro member
    rw [sourcesBelow] at member
    split at member
    next isDirectory =>
      split at member
      next top leads =>
        obtain ⟨listed, source⟩ := List.mem_filter.mp member
        obtain ⟨place, below, rfl⟩ := List.mem_map.mp listed
        have directory : d.entryAt? top = some .directory := by
          apply Disk.entryAt?_of_isDirectoryAt
          simp only [Disk.isDirectory, Disk.stat?, leads] at isDirectory
          exact isDirectory
        obtain ⟨above, name, contents, rfl, descends, file⟩ :=
          Disk.exists_of_mem_filesBelow fileSystem.distinct directory below
        have proper : Place.IsProper (above ++ [name]) :=
          fileSystem.names.entries _ (Disk.mem_entries_of_entryAt? (by simp) file)
        rw [isSourceFile_iff (Disk.fileName?_pathOf proper)] at source
        exact ⟨top, _, leads, ⟨above, name, contents, rfl, descends, file, source⟩, rfl⟩
      next => cases member
    next => cases member
  next =>
    rintro ⟨top, place, leads, source, rfl⟩
    exact mem_sourcesBelow fileSystem.names leads source

theorem finds_iff (fileSystem : d.IsFileSystem) : ctx.Finds d p ↔ ctx.IsSourcePath d p :=
  exists_congr fun _ => and_congr_right fun _ => mem_sourcesBelow_iff fileSystem

theorem IsSourcePath.isCanonicalFile (fileSystem : d.IsFileSystem) (source : ctx.IsSourcePath d p) :
    d.IsCanonicalFile p := by
  obtain ⟨root, -, top, place, leads, below, rfl⟩ := source
  have proper := below.isProper fileSystem.names
  obtain ⟨directory, name, contents, rfl, descends, file, -⟩ := below
  obtain ⟨direct, within⟩ := descends.direct (fileSystem.find_direct leads)
  have plain : ∀ target, Entry.file contents ≠ .link target := by
    rintro target ⟨⟩
  have found := Disk.find_pathOf fileSystem.nulFree (.step direct within file plain) proper
  refine ⟨Disk.isAbsolute_pathOf _, ?_, ?_⟩
  next => simp only [Disk.isFile, Disk.stat?, found, file]
  next => rw [Disk.canonicalize, found]

theorem IsSourcePath.exists_fileName (fileSystem : d.IsFileSystem)
    (source : ctx.IsSourcePath d p) :
    ∃ name, p.fileName? = some name ∧
      (∃ extension ∈ ctx.extensions, extension.toList <:+ name.toList) ∧
      ¬".d.ts".toList <:+ name.toList := by
  obtain ⟨root, -, top, place, -, below, rfl⟩ := source
  have proper := below.isProper fileSystem.names
  obtain ⟨directory, name, contents, rfl, -, -, named⟩ := below
  exact ⟨name, Disk.fileName?_pathOf proper, named⟩

theorem mem_discover_iff (ctx : Context) (fileSystem : d.IsFileSystem) (p : Path) :
    (p ∈ (ctx.discover d).excluded ↔ ctx.IsSourcePath d p ∧ ctx.isExcluded p = true) ∧
      (p ∈ (ctx.discover d).models ++ (ctx.discover d).mixins ↔ ctx.IsSourcePath d p ∧
        ctx.isExcluded p = false ∧
        ∃ root ∈ ctx.models.roots ++ ctx.mixins.roots, p.startsWith root = true) ∧
      (p ∈ (ctx.discover d).mixins ↔
        p ∈ (ctx.discover d).models ++ (ctx.discover d).mixins ∧ ctx.RanksAsMixin p) ∧
      (p ∈ (ctx.discover d).models ↔
        p ∈ (ctx.discover d).models ++ (ctx.discover d).mixins ∧ ¬ctx.RanksAsMixin p) := by
  obtain ⟨models, mixins, excluded⟩ := mem_discover ctx fileSystem.names p
  have within : ctx.isMixin p = true → _ := any_of_isMixin
  rw [List.mem_append, models, mixins, excluded, finds_iff fileSystem, isModel_eq, ← isMixin_iff,
    ← List.any_eq_true]
  generalize (ctx.models.roots ++ ctx.mixins.roots).any p.startsWith = held at within ⊢
  generalize ctx.isMixin p = mixin at within ⊢
  cases held <;> cases mixin <;> simp at within ⊢

structure Classifies (ctx : Context) (d : Disk) (found : Discovered) : Prop where
  modelsIncrease : found.models.Pairwise Path.Before
  mixinsIncrease : found.mixins.Pairwise Path.Before
  apart : ∀ p ∈ found.models, ∀ q ∈ found.mixins, (p == q) = false
  included : ∀ p ∈ found.models ++ found.mixins, ∀ q ∈ found.excluded, (p == q) = false
  canonical : ∀ p ∈ found.models ++ found.mixins, d.IsCanonicalFile p
  named : ∀ p ∈ found.models ++ found.mixins, ∃ name, p.fileName? = some name ∧
    (∃ extension ∈ ctx.extensions, extension.toList <:+ name.toList) ∧
    ¬".d.ts".toList <:+ name.toList
  underRoot : ∀ p ∈ found.models ++ found.mixins,
    ∃ root ∈ ctx.models.roots ++ ctx.mixins.roots, p.startsWith root = true
  mixin_iff : ∀ p, p ∈ found.mixins ↔ p ∈ found.models ++ found.mixins ∧ ctx.RanksAsMixin p
  model_iff : ∀ p, p ∈ found.models ↔ p ∈ found.models ++ found.mixins ∧ ¬ctx.RanksAsMixin p
  listed_iff : ∀ p, p ∈ found.models ++ found.mixins ↔ ctx.IsSourcePath d p ∧
    p ∉ found.excluded ∧ ∃ root ∈ ctx.models.roots ++ ctx.mixins.roots, p.startsWith root = true
  excluded_iff : ∀ p, p ∈ found.excluded ↔ ctx.IsSourcePath d p ∧
    ∃ glob ∈ ctx.exclude, glob.isMatch (ctx.relative p).text = true

end Context

theorem discover_classifies (ctx : Context) {d : Disk} (fileSystem : d.IsFileSystem) :
    ctx.Classifies d (ctx.discover d) := by
  have lists := ctx.mem_discover_iff fileSystem
  have source {p : Path} (listed : p ∈ (ctx.discover d).models ++ (ctx.discover d).mixins) :
      ctx.IsSourcePath d p := ((lists p).2.1.mp listed).1
  have canonical {p : Path} (listed : p ∈ (ctx.discover d).models ++ (ctx.discover d).mixins) :=
    (source listed).isCanonicalFile fileSystem
  constructor
  case modelsIncrease => exact (Path.sortedSet_before _).filter _
  case mixinsIncrease => exact (Path.sortedSet_before _).filter _
  case apart =>
    intro p model q mixin
    rw [Bool.eq_false_iff]
    intro same
    have equal := (canonical (List.mem_append_left _ model)).isCanonical.eq_of_beq
      (canonical (List.mem_append_right _ mixin)).isCanonical same
    subst equal
    exact ((lists p).2.2.2.mp model).2 ((lists p).2.2.1.mp mixin).2
  case included =>
    intro p listed q excluded
    rw [Bool.eq_false_iff]
    intro same
    obtain ⟨found, matched⟩ := (lists q).1.mp excluded
    have equal := (canonical listed).isCanonical.eq_of_beq
      (found.isCanonicalFile fileSystem).isCanonical same
    subst equal
    have free := ((lists p).2.1.mp listed).2.1
    rw [matched] at free
    cases free
  case canonical => exact fun p listed => canonical listed
  case named => exact fun p listed => (source listed).exists_fileName fileSystem
  case underRoot => exact fun p listed => ((lists p).2.1.mp listed).2.2
  case mixin_iff => exact fun p => (lists p).2.2.1
  case model_iff => exact fun p => (lists p).2.2.2
  case listed_iff =>
    intro p
    rw [(lists p).2.1, (lists p).1, not_and, Bool.not_eq_true]
    constructor
    next => exact fun ⟨found, free, within⟩ => ⟨found, fun _ => free, within⟩
    next => exact fun ⟨found, free, within⟩ => ⟨found, free found, within⟩
  case excluded_iff =>
    intro p
    rw [(lists p).1, Context.isExcluded, List.any_eq_true]

def nestedDisk : Disk where
  entries := [
    (["app"], .directory),
    (["app", "user.js"], .file "".toUTF8),
    (["app", "mixins"], .directory),
    (["app", "mixins", "tag.ts"], .file "".toUTF8)]
  workingDirectory := ["app"]

def nestedContext : Context where
  projectRoot := ⟨"/"⟩
  extensions := defaultExtensions
  models := ⟨none, some ⟨"/app"⟩, [], [⟨"/app"⟩]⟩
  mixins := ⟨none, some ⟨"/app/mixins"⟩, [], [⟨"/app/mixins"⟩]⟩
  output := {}
  importMappings := []
  intermediateModels := []
  exclude := []
  dryRun := false

theorem discover_classifies_nested :
    nestedDisk.IsFileSystem ∧
      nestedContext.Classifies nestedDisk (nestedContext.discover nestedDisk) ∧
      Disk.pathOf ["app", "user.js"] ∈ (nestedContext.discover nestedDisk).models ∧
      Disk.pathOf ["app", "mixins", "tag.ts"] ∈ (nestedContext.discover nestedDisk).mixins := by
  have fileSystem : nestedDisk.IsFileSystem := by
    constructor
    case names => constructor <;> simp only [nestedDisk, Place.IsProper] <;> decide
    case nulFree =>
      simp only [Disk.NulFree, nestedDisk]
      decide
    case distinct =>
      unfold Disk.DistinctPlaces nestedDisk
      decide
    case start => exact .step .root rfl rfl (by rintro target ⟨⟩)
  have classifies := discover_classifies nestedContext fileSystem
  have leads : nestedDisk.find ⟨"/app"⟩ = .ok ["app"] := by with_unfolding_all rfl
  have top : nestedDisk.Descends ["app"] ["app"] := .here rfl
  have below : nestedDisk.Descends ["app"] (["app"] ++ ["mixins"]) := .down top (by decide) rfl
  have free (p : Path) : p ∉ (nestedContext.discover nestedDisk).excluded := by
    intro excluded
    obtain ⟨-, glob, none, -⟩ := (classifies.excluded_iff p).mp excluded
    cases none
  have user : nestedContext.IsSourcePath nestedDisk (Disk.pathOf ["app", "user.js"]) :=
    ⟨⟨"/app"⟩, List.mem_cons_self, ["app"], _, leads, ⟨["app"], "user.js", _, rfl, top, rfl,
      ⟨".js", by decide, by decide⟩, by decide⟩, rfl⟩
  have tag : nestedContext.IsSourcePath nestedDisk (Disk.pathOf ["app", "mixins", "tag.ts"]) :=
    ⟨⟨"/app"⟩, List.mem_cons_self, ["app"], _, leads, ⟨["app", "mixins"], "tag.ts", _, rfl, below,
      rfl, ⟨".ts", by decide, by decide⟩, by decide⟩, rfl⟩
  refine ⟨fileSystem, classifies, ?_, ?_⟩
  next =>
    rw [classifies.model_iff, classifies.listed_iff]
    refine ⟨⟨user, free _, ⟨"/app"⟩, List.mem_cons_self, by decide⟩, ?_⟩
    rintro ⟨root, ⟨listed, holds, -⟩, -⟩
    rw [List.mem_singleton.mp listed] at holds
    revert holds
    decide
  next =>
    rw [classifies.mixin_iff, classifies.listed_iff]
    refine ⟨⟨tag, free _, ⟨"/app"⟩, List.mem_cons_self, by decide⟩, ?_⟩
    refine ⟨⟨"/app/mixins"⟩, ⟨List.mem_cons_self, by decide, by decide⟩, .inr ?_⟩
    exact ⟨⟨"/app"⟩, ⟨List.mem_cons_self, by decide, by decide⟩, by decide⟩

end SchemaMigration
