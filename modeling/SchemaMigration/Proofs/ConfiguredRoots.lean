import Mathlib.Data.List.Induction
import Mathlib.Data.List.TakeDrop
import Mathlib.Data.List.TakeWhile
import SchemaMigration.Proofs.CanonicalPaths
import SchemaMigration.Proofs.LexicalPaths
import SchemaMigration.Proofs.SpecifierPatterns

set_option autoImplicit false

namespace SchemaMigration

theorem Place.ne_of_proper {name : String} (proper : (Component.name name).Proper) :
    (name == "" || name == ".") = false ∧ (name == "..") = false := by
  have read := proper.2
  rw [Component.text] at read
  refine ⟨?_, ?_⟩ <;> rw [Bool.eq_false_iff]
  next =>
    intro same
    rcases (by simpa using same) with rfl | rfl <;> cases read
  next =>
    intro same
    rw [beq_iff_eq.mp same] at read
    cases read

namespace Disk

variable {d : Disk}

-- A place that is reached from the root through directories, none of the steps being a link.
inductive Direct (d : Disk) : Place → Prop
  | root : Direct d []
  | step {place : Place} {name : String} {entry : Entry} (above : Direct d place)
      (directory : d.isDirectoryAt place = true) (there : d.entryAt? (place ++ [name]) = some entry)
      (plain : ∀ target, entry ≠ .link target) : Direct d (place ++ [name])

theorem Direct.of_concat {place : Place} {name : String} (direct : d.Direct (place ++ [name])) :
    d.Direct place ∧ d.isDirectoryAt place = true ∧
      ∃ entry, d.entryAt? (place ++ [name]) = some entry ∧ ∀ target, entry ≠ .link target := by
  generalize whole : place ++ [name] = reached at direct
  cases direct with
  | root => simp at whole
  | step above directory there plain =>
    obtain ⟨rfl, rfl⟩ := List.append_singleton_inj.mp whole
    exact ⟨above, directory, _, there, plain⟩

theorem Direct.dropLast {place : Place} (direct : d.Direct place) : d.Direct place.dropLast := by
  cases direct with
  | root => exact .root
  | step above => simpa using above

theorem Direct.of_append {front back : Place} (direct : d.Direct (front ++ back)) :
    d.Direct front := by
  induction back using List.reverseRecOn with
  | nil => simpa using direct
  | append_singleton back name ih =>
    rw [← List.append_assoc] at direct
    exact ih direct.of_concat.1

def EndsDirectly (d : Disk) (walk : Place → List String → Except DiskError Target) : Prop :=
  ∀ place pieces found, d.Direct place → walk place pieces = .ok (.existing found) →
    d.Direct found

theorem walkWith_direct {onLink : Place → List String → Except DiskError Target}
    (direct : d.EndsDirectly onLink) : d.EndsDirectly (d.walkWith onLink true) := by
  intro place pieces found start walked
  fun_induction walkWith d onLink true place pieces with
  | case1 place =>
    cases walked
    exact start
  | case2 | case5 | case6 => cases walked
  | case3 place piece rest _ _ ih => exact ih start walked
  | case4 place piece rest _ _ _ ih => exact ih start.dropLast walked
  | case7 place piece rest _ _ _ next target there last => simp at last
  | case8 place piece rest _ _ _ next target _ _ =>
    apply direct _ _ found _ walked
    split
    next => exact .root
    next => exact start
  | case9 place piece rest within _ _ next entry there plain ih =>
    exact ih (.step start (by simpa using within) plain there) walked

theorem walk_direct (links : Nat) : d.EndsDirectly (d.walk true links) := by
  induction links with
  | zero => exact walkWith_direct fun _ _ _ _ walked => nomatch walked
  | succ links ih => exact walkWith_direct ih

theorem find_direct {p : Path} {place : Place} (absolute : p.isAbsolute = true)
    (found : d.find p = .ok place) : d.Direct place := by
  obtain ⟨-, -, walked⟩ := find_eq_ok_iff.mp found
  rw [if_pos absolute] at walked
  exact walk_direct maxLinks _ _ _ .root walked

theorem walkWith_of_direct (onLink : Place → List String → Except DiskError Target)
    (front back : Place) (direct : d.Direct (front ++ back)) (proper : Place.IsProper back) :
    d.walkWith onLink true front back = .ok (.existing (front ++ back)) := by
  induction back generalizing front with
  | nil => simp [walkWith]
  | cons name rest ih =>
    have whole : front ++ name :: rest = (front ++ [name]) ++ rest := by simp
    rw [whole] at direct ⊢
    obtain ⟨-, within, entry, there, plain⟩ := direct.of_append.of_concat
    obtain ⟨filled, down⟩ := Place.ne_of_proper (proper name List.mem_cons_self)
    have later := ih (front ++ [name]) direct fun other member =>
      proper other (List.mem_cons_of_mem name member)
    rw [walkWith]
    cases entry with
    | link target => exact absurd rfl (plain target)
    | file | directory | sink => simp [within, filled, down, there, later]

theorem piecesOf_pathOf {place : Place} (proper : place.IsProper) :
    piecesOf (pathOf place) = "" :: if place.isEmpty then [""] else place := by
  have text : (pathOf place).text.toList =
      '/' :: (['/'] : List Char).intercalate (place.map String.toList) := by
    simp [pathOf, String.toList_append]
  rw [piecesOf, Path.pieces, text, List.splitOn_cons_eq_if_modifyHead]
  cases place with
  | nil => simp
  | cons name rest =>
    rw [List.splitOn_intercalate]
    next => simp [Function.comp_def]
    next =>
      intro piece listed
      obtain ⟨name, member, rfl⟩ := List.mem_map.mp listed
      exact (proper name member).1
    next => simp

theorem walk_pathOf {place : Place} (direct : d.Direct place) (proper : place.IsProper)
    (links : Nat) : d.walk true links [] (piecesOf (pathOf place)) = .ok (.existing place) := by
  have walked (onLink : Place → List String → Except DiskError Target) :
      d.walkWith onLink true [] (piecesOf (pathOf place)) = .ok (.existing place) := by
    have root : d.isDirectoryAt [] = true := rfl
    have steps := walkWith_of_direct onLink [] place direct proper
    rw [piecesOf_pathOf proper]
    cases place with
    | nil => simp [walkWith, root]
    | cons name rest => simpa [walkWith, root] using steps
  cases links with
  | zero => exact walked _
  | succ links => exact walked _

theorem eq_of_find_pathOf {place found : Place} (direct : d.Direct place)
    (proper : place.IsProper) (leads : d.find (pathOf place) = .ok found) : found = place := by
  obtain ⟨-, -, walked⟩ := find_eq_ok_iff.mp leads
  rw [if_pos (isAbsolute_pathOf place), walk_pathOf direct proper] at walked
  exact (Target.existing.inj (Except.ok.inj walked)).symm

theorem isAbsolute_canonicalOrNormal {p : Path} (absolute : p.isAbsolute = true) :
    (d.canonicalOrNormal p).isAbsolute = true := by
  rw [canonicalOrNormal, canonicalize]
  cases d.find p with
  | ok place => exact isAbsolute_pathOf place
  | error => exact Path.isAbsolute_normalize absolute

theorem exists_find_of_isDirectory {p : Path} (directory : d.isDirectory p = true) :
    ∃ place, d.find p = .ok place := by
  cases found : d.find p with
  | ok place => exact ⟨place, rfl⟩
  | error => simp [isDirectory, stat?, found] at directory

def IsCanonicalOn (d : Disk) (p : Path) : Prop :=
  ∃ place, place.IsProper ∧ d.Direct place ∧ p = pathOf place

theorem isCanonicalOn_of_find (start : Place.IsProper d.workingDirectory) {p : Path} {place : Place}
    (absolute : p.isAbsolute = true) (found : d.find p = .ok place) :
    d.IsCanonicalOn (d.canonicalOrNormal p) := by
  rw [canonicalOrNormal, canonicalize, found]
  exact ⟨place, find_proper start found, find_direct absolute found, rfl⟩

end Disk

namespace Template

theorem isAbsolute_anchor {d : Disk} {root : Path} (absolute : root.isAbsolute = true)
    (template : Path) : (anchor d root template).isAbsolute = true := by
  rw [anchor]
  split
  next own => exact own
  next =>
    split
    next before after _ =>
      have made := Disk.isAbsolute_canonicalOrNormal (d := d)
        (Path.isAbsolute_join_of_absolute absolute (q := ⟨String.ofList (splitLast before).1⟩))
      rw [Path.isAbsolute, beq_iff_eq] at made
      simp [Path.isAbsolute, String.toList_append, List.head?_append, made]
    next => exact Disk.isAbsolute_canonicalOrNormal (Path.isAbsolute_join_of_absolute absolute)

theorem isAbsolute_splitLast {text before after : List Char} (absolute : text.head? = some '/')
    (cut : Text.splitAtStar? text = some (before, after)) :
    (splitLast before).1 = [] ∨ (splitLast before).1.head? = some '/' := by
  have first : before.head? = some '/' := by
    rw [(Text.splitAtStar?_eq_some_iff.mp cut).1] at absolute
    cases before with
    | nil => simp at absolute
    | cons c rest => simpa using absolute
  rw [splitLast]
  split
  next => exact .inl rfl
  next last slash above same =>
    have whole : before.reverse = last ++ slash :: above := by
      rw [← List.takeWhile_append_dropWhile (p := (· != '/')) (l := before.reverse)]
      rw [List.span_eq_takeWhile_dropWhile, Prod.mk.injEq] at same
      rw [same.1, same.2]
    rw [List.reverse_eq_iff] at whole
    rw [whole] at first
    cases above with
    | nil => exact .inl rfl
    | cons c rest => simpa [List.head?_append] using first

theorem expand_isCanonicalOn {d : Disk} (start : Place.IsProper d.workingDirectory)
    {template root : Path} (absolute : template.isAbsolute = true)
    (listed : root ∈ expand d template) :
    root = template ∧ Text.splitAtStar? template.text.toList = none ∨ d.IsCanonicalOn root := by
  rw [expand] at listed
  split at listed
  next plain => exact .inl ⟨List.mem_singleton.mp listed, plain⟩
  next before after cut =>
    right
    simp only at listed
    generalize chosen : (if (splitLast before).1.isEmpty then (⟨"/"⟩ : Path)
      else ⟨String.ofList (splitLast before).1⟩) = parent at listed
    have above : parent.isAbsolute = true := by
      rw [← chosen]
      split
      next => rfl
      next filled =>
        rcases isAbsolute_splitLast (by simpa [Path.isAbsolute] using absolute) cut with none | some
        next => simp [none] at filled
        next => simp [Path.isAbsolute, some]
    split at listed
    next => cases listed
    next place found =>
      obtain ⟨⟨name, entry⟩, -, kept⟩ := List.mem_filterMap.mp (List.mem_mergeSort.mp listed)
      cases entry with
      | directory =>
        obtain ⟨accepted, made⟩ := Option.ite_none_right_eq_some.mp kept
        obtain ⟨target, leads⟩ :=
          Disk.exists_find_of_isDirectory ((Bool.and_eq_true _ _).mp accepted).2
        rw [← Option.some.inj made]
        apply Disk.isCanonicalOn_of_find start _ leads
        split
        next => exact Path.isAbsolute_join_of_absolute above
        next => exact Path.isAbsolute_join_of_absolute (Path.isAbsolute_join_of_absolute above)
      | file | link | sink => cases kept

end Template

-- A root that is taken as it was written: an absolute template without a star, or the normal form
-- of a path that leads nowhere.
inductive SourceConfig.Unresolved (s : SourceConfig) (d : Disk) (projectRoot : Path) : Path → Prop
  | template {m : PathMapping} (listed : m ∈ s.additional)
      (absolute : m.directory.isAbsolute = true) (plain : '*' ∉ m.directory.text.toList) :
      Unresolved s d projectRoot m.directory
  | missing {p : Path} {fault : DiskError}
      (listed : p ∈ s.directory.toList ++ s.additional.map PathMapping.directory)
      (nowhere : d.find (projectRoot.join p) = .error fault) :
      Unresolved s d projectRoot (projectRoot.join p).normalize

theorem SourceConfig.not_unresolved {s : SourceConfig} {d : Disk} {projectRoot root : Path}
    (relative : ∀ m ∈ s.additional, m.directory.isAbsolute = false)
    (there : ∀ p ∈ s.directory.toList ++ s.additional.map PathMapping.directory,
      (d.find (projectRoot.join p)).isOk = true) : ¬s.Unresolved d projectRoot root := by
  intro unresolved
  cases unresolved with
  | template listed absolute =>
    rw [relative _ listed] at absolute
    cases absolute
  | missing listed nowhere =>
    have leads := there _ listed
    rw [nowhere] at leads
    cases leads

namespace SourceRoots

variable {d : Disk} {projectRoot root : Path} {s : SourceConfig}

theorem canonicalOrNormal_cases (start : Place.IsProper d.workingDirectory)
    (absolute : projectRoot.isAbsolute = true) {p : Path}
    (listed : p ∈ s.directory.toList ++ s.additional.map PathMapping.directory) :
    s.Unresolved d projectRoot (d.canonicalOrNormal (projectRoot.join p)) ∨
      d.IsCanonicalOn (d.canonicalOrNormal (projectRoot.join p)) := by
  cases found : d.find (projectRoot.join p) with
  | ok place =>
    exact .inr (Disk.isCanonicalOn_of_find start (Path.isAbsolute_join_of_absolute absolute) found)
  | error fault =>
    left
    rw [Disk.canonicalOrNormal, Disk.canonicalize, found]
    exact .missing listed found

theorem roots_cases (start : Place.IsProper d.workingDirectory)
    (absolute : projectRoot.isAbsolute = true) (listed : root ∈ (ofConfig d projectRoot s).roots) :
    s.Unresolved d projectRoot root ∨ d.IsCanonicalOn root := by
  rcases List.mem_append.mp (Path.mem_of_mem_sortedSet listed) with own | added
  next =>
    obtain ⟨p, given, rfl⟩ :
        ∃ p, s.directory = some p ∧ d.canonicalOrNormal (projectRoot.join p) = root := by
      simpa using own
    exact canonicalOrNormal_cases start absolute (by simp [given])
  next =>
    obtain ⟨mapping, anchored, expanded⟩ := List.mem_flatMap.mp added
    obtain ⟨m, given, rfl⟩ := List.mem_map.mp anchored
    rcases Template.expand_isCanonicalOn start (Template.isAbsolute_anchor absolute _) expanded with
      ⟨rfl, plain⟩ | canonical
    next =>
      rw [Text.splitAtStar?_eq_none_iff] at plain
      by_cases own : m.directory.isAbsolute = true
      next =>
        rw [Template.anchor, if_pos own] at plain ⊢
        exact .inl (.template given own plain)
      next =>
        rw [Template.anchor, if_neg own] at plain ⊢
        split
        next before after cut => simp [cut, String.toList_append] at plain
        next =>
          apply canonicalOrNormal_cases start absolute
          exact List.mem_append_right _ (List.mem_map_of_mem given)
    next => exact .inr canonical

end SourceRoots

theorem Disk.isCanonical_of_canonicalize {d : Disk} {p q : Path}
    (start : Place.IsProper d.workingDirectory) (canonical : d.canonicalize p = .ok q) :
    q.IsCanonical := by
  obtain ⟨place, found, rfl⟩ := eq_pathOf_of_canonicalize canonical
  exact ⟨place, find_proper start found, rfl⟩

namespace Context

variable {d : Disk} {config : Config} {ctx : Context}

structure Configured (ctx : Context) (d : Disk) (config : Config) : Prop where
  projectRoot : d.canonicalize config.projectRoot = .ok ctx.projectRoot
  models : ctx.models = SourceRoots.ofConfig d ctx.projectRoot config.models
  mixins : ctx.mixins = SourceRoots.ofConfig d ctx.projectRoot config.mixins
  output : ctx.output = outputRoots d ctx.projectRoot config.output
  intermediateModels : ctx.intermediateModels = config.intermediateModels
  dryRun : ctx.dryRun = config.dryRun

theorem configured_of_ofConfig (built : ofConfig d config = .ok ctx) : ctx.Configured d config := by
  rw [ofConfig] at built
  split at built
  next => cases built
  next root canonical =>
    split at built
    next => cases built
    next =>
      split at built
      next => cases built
      next =>
        cases excluded : config.exclude.mapM readExclude with
        | error =>
          rw [excluded] at built
          cases built
        | ok exclude =>
          rw [excluded] at built
          cases built
          exact ⟨canonical, rfl, rfl, rfl, rfl, rfl⟩

theorem ofConfig_passesOn (d : Disk) (config : Config) (dryRun : Bool) (specifiers : List String) :
    ofConfig d { config with dryRun, intermediateModels := specifiers } =
      (ofConfig d config).map fun ctx =>
        { ctx with dryRun, intermediateModels := specifiers } := by
  have sources : hasSources { config with dryRun, intermediateModels := specifiers } =
      hasSources config := rfl
  have crowded : crowdedPattern? { config with dryRun, intermediateModels := specifiers } =
      crowdedPattern? config := rfl
  simp only [ofConfig, sources, crowded]
  cases d.canonicalize config.projectRoot with
  | error => rfl
  | ok root =>
    dsimp only
    split
    next => rfl
    next =>
      cases crowdedPattern? config with
      | some pattern => rfl
      | none => cases config.exclude.mapM readExclude <;> rfl

theorem Configured.projectRoot_isCanonical (configured : ctx.Configured d config)
    (start : Place.IsProper d.workingDirectory) : ctx.projectRoot.IsCanonical :=
  Disk.isCanonical_of_canonicalize start configured.projectRoot

theorem Configured.isAbsolute_projectRoot (configured : ctx.Configured d config) :
    ctx.projectRoot.isAbsolute = true := by
  obtain ⟨place, -, canonical⟩ := Disk.eq_pathOf_of_canonicalize configured.projectRoot
  rw [canonical]
  exact Disk.isAbsolute_pathOf place

end Context

end SchemaMigration
