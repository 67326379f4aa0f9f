import Mathlib.Data.List.Basic
import SchemaMigration.Proofs.ConfiguredRoots
import SchemaMigration.Proofs.KeptFiles
import SchemaMigration.Proofs.PathPieces
import SchemaMigration.Proofs.SettledPaths
import SchemaMigration.Proofs.SpecifierPatterns

set_option autoImplicit false

namespace SchemaMigration

namespace Disk

variable {d : Disk}

section Walk

-- A walk that goes on has come to a directory, and stays there as long as no step is taken.
def GoesOnFromDirectories (d : Disk) (walk : Place → List String → Except DiskError Target) :
    Prop :=
  ∀ place front back found, back ≠ [] → walk place (front ++ back) = .ok (.existing found) →
    ∃ middle, d.isDirectoryAt middle = true ∧
      ∀ n, walk place (front ++ List.replicate n "") = .ok (.existing middle)

theorem isDirectoryAt_of_walkWith {onLink : Place → List String → Except DiskError Target}
    {place found : Place} {pieces : List String} (further : pieces ≠ [])
    (walked : d.walkWith onLink true place pieces = .ok (.existing found)) :
    d.isDirectoryAt place = true := by
  cases pieces with
  | nil => exact absurd rfl further
  | cons piece rest =>
    by_contra outside
    rw [Bool.not_eq_true] at outside
    simp [walkWith, outside] at walked

theorem walkWith_blanks {onLink : Place → List String → Except DiskError Target} {place : Place}
    (inside : d.isDirectoryAt place = true) (n : Nat) :
    d.walkWith onLink true place (List.replicate n "") = .ok (.existing place) := by
  induction n with
  | zero => rfl
  | succ n ih => rw [List.replicate_succ, walkWith_blank inside rfl, ih]

theorem walkWith_goesOn {onLink : Place → List String → Except DiskError Target}
    (linked : d.GoesOnFromDirectories onLink) :
    d.GoesOnFromDirectories (d.walkWith onLink true) := by
  intro place front back found further walked
  induction front generalizing place with
  | nil =>
    have inside := isDirectoryAt_of_walkWith further walked
    exact ⟨place, inside, walkWith_blanks inside⟩
  | cons piece front ih =>
    have inside := isDirectoryAt_of_walkWith (by simp) walked
    simp only [List.cons_append] at walked ⊢
    by_cases blank : (piece == "" || piece == ".") = true
    next =>
      simp only [walkWith_blank inside blank] at walked ⊢
      exact ih place walked
    next =>
      by_cases up : (piece == "..") = true
      next =>
        simp only [walkWith_up inside blank up] at walked ⊢
        exact ih _ walked
      next =>
        cases held : d.entryAt? (place ++ [piece]) with
        | none => simp [walkWith, inside, blank, up, held, further] at walked
        | some entry =>
          cases entry with
          | link target =>
            -- The steps that are left are taken from the target of the link.
            simp only [walkWith_link inside blank up held, Bool.not_true, Bool.and_false,
              Bool.false_eq_true, if_false, ← List.append_assoc] at walked ⊢
            exact linked _ _ _ _ further walked
          | file | directory | sink =>
            have plain (rest : List String) : d.walkWith onLink true place (piece :: rest) =
                d.walkWith onLink true (place ++ [piece]) rest :=
              walkWith_entry inside blank up held (by rintro _ ⟨⟩)
            simp only [plain] at walked ⊢
            exact ih _ walked

theorem walk_goesOn (links : Nat) : d.GoesOnFromDirectories (d.walk true links) := by
  induction links with
  | zero => exact walkWith_goesOn fun _ _ _ _ _ walked => nomatch walked
  | succ links ih => exact walkWith_goesOn ih

theorem exists_piecesOf_join {base step : Path} (filled : base.text ≠ "")
    (relative : step.isAbsolute = false) :
    ∃ front n, piecesOf base = front ++ List.replicate n "" ∧
      piecesOf (base.join step) = front ++ piecesOf step := by
  by_cases closed : base.text.toList.getLast? = some '/'
  next =>
    obtain ⟨directory, written⟩ := List.getLast?_eq_some_iff.mp closed
    refine ⟨(directory.splitOn '/').map String.ofList, 1, ?_, ?_⟩
    next => simp [piecesOf, Path.pieces, written, List.splitOn_append_cons_self]
    next =>
      simp [piecesOf, Path.pieces, Path.join, relative, written, String.toList_append,
        List.splitOn_append_cons_self]
  next =>
    refine ⟨piecesOf base, 0, by simp, ?_⟩
    simp [piecesOf, Path.pieces, Path.join, relative, closed, filled, String.toList_append,
      List.splitOn_append_cons_self]

theorem isDirectory_of_find_join {base step : Path} {found : Place} (filled : base.text ≠ "")
    (relative : step.isAbsolute = false) (leads : d.find (base.join step) = .ok found) :
    d.isDirectory base = true := by
  obtain ⟨noNul, -, walked⟩ := find_eq_ok_iff.mp leads
  obtain ⟨front, n, own, whole⟩ := exists_piecesOf_join filled relative
  rw [whole, Path.isAbsolute_join relative] at walked
  have further : piecesOf step ≠ [] := by simp [piecesOf, Path.pieces]
  obtain ⟨middle, directory, stays⟩ := walk_goesOn maxLinks _ _ _ _ further walked
  have inside : '\x00' ∉ base.text.toList := by
    intro nul
    apply noNul
    rw [Path.join, relative, if_neg Bool.false_ne_true]
    split <;> simp [String.toList_append, nul]
  have reached : d.find base = .ok middle := find_eq_ok_iff.mpr ⟨inside, filled, by rw [own, stays]⟩
  simp only [isDirectory, stat?, reached]
  exact directory

end Walk

def NulFree (d : Disk) : Prop :=
  ∀ entry ∈ d.entries, ∀ name ∈ entry.1, '\x00' ∉ name.toList

theorem Direct.noNul {place : Place} (direct : d.Direct place) (names : d.NulFree) :
    ∀ name ∈ place, '\x00' ∉ name.toList := by
  cases direct with
  | root => simp
  | step _ _ there => exact names _ (mem_entries_of_entryAt? (by simp) there)

theorem noNul_pathOf {place : Place} (names : ∀ name ∈ place, '\x00' ∉ name.toList) :
    '\x00' ∉ (pathOf place).text.toList := by
  have joined (pieces : List (List Char)) (inside : ∀ piece ∈ pieces, '\x00' ∉ piece) :
      '\x00' ∉ (['/'] : List Char).intercalate pieces := by
    induction pieces with
    | nil => simp
    | cons piece rest ih =>
      cases rest with
      | nil => simpa using inside
      | cons other rest => simp_all [List.intercalate_cons_cons]
  have pieces := joined (place.map String.toList) (by simpa using names)
  simpa [pathOf, String.toList_append] using pieces

theorem find_pathOf (names : d.NulFree) {place : Place} (direct : d.Direct place)
    (proper : place.IsProper) : d.find (pathOf place) = .ok place := by
  refine find_eq_ok_iff.mpr ⟨noNul_pathOf (direct.noNul names), ?_, ?_⟩
  next => simp [pathOf]
  next => rw [if_pos (isAbsolute_pathOf place), walk_pathOf direct proper]

theorem find_proper_of_absolute {p : Path} {place : Place} (absolute : p.isAbsolute = true)
    (found : d.find p = .ok place) : place.IsProper := by
  obtain ⟨-, -, walked⟩ := find_eq_ok_iff.mp found
  rw [if_pos absolute] at walked
  exact walk_proper maxLinks _ _ place (by simp [Place.IsProper]) (fun _ => noSlash_piecesOf) walked

structure IsCanonicalFile (d : Disk) (p : Path) : Prop where
  absolute : p.isAbsolute = true
  file : d.isFile p = true
  canonical : d.canonicalize p = .ok p

theorem isCanonicalFile_canonicalOrNormal (names : d.NulFree) {p : Path}
    (absolute : p.isAbsolute = true) (file : d.isFile p = true) :
    d.IsCanonicalFile (d.canonicalOrNormal p) := by
  obtain ⟨place, found⟩ := exists_find_of_isFile file
  have leads :=
    find_pathOf names (find_direct absolute found) (find_proper_of_absolute absolute found)
  have written : d.canonicalOrNormal p = pathOf place := by
    simp only [canonicalOrNormal, canonicalize, found]
  rw [written]
  refine ⟨isAbsolute_pathOf place, ?_, ?_⟩
  next => rwa [isFile, stat?, leads, ← found, ← stat?, ← isFile]
  next => rw [canonicalize, leads]

theorem IsCanonicalFile.isCanonical {p : Path} (own : d.IsCanonicalFile p) : p.IsCanonical := by
  obtain ⟨place, found, same⟩ := eq_pathOf_of_canonicalize own.canonical
  exact ⟨place, find_proper_of_absolute own.absolute found, same⟩

inductive FirstFile (d : Disk) (candidates : List Path) : Option Path → Prop
  | found {before after : List Path} {candidate p : Path}
      (listed : candidates = before ++ candidate :: after)
      (earlier : ∀ other ∈ before, d.isFile other = false) (file : d.isFile candidate = true)
      (canonical : d.canonicalize candidate = .ok p) : FirstFile d candidates (some p)
  | missing (absent : ∀ candidate ∈ candidates, d.isFile candidate = false) :
      FirstFile d candidates none

theorem firstFile_firstFile? (candidates : List Path) :
    d.FirstFile candidates (d.firstFile? candidates) := by
  rw [firstFile?]
  cases first : candidates.find? d.isFile with
  | none => exact .missing (by simpa using first)
  | some candidate =>
    obtain ⟨file, before, after, listed, earlier⟩ := List.find?_eq_some_iff_append.mp first
    obtain ⟨place, found⟩ := exists_find_of_isFile file
    exact .found listed (by simpa using earlier) file (canonicalize_of_find found)

theorem firstFile?_cons (p : Path) (rest : List Path) :
    d.firstFile? (p :: rest) =
      if d.isFile p then some (d.canonicalOrNormal p) else d.firstFile? rest := by
  by_cases file : d.isFile p = true <;> simp [firstFile?, file]

theorem firstFile?_append (front back : List Path) :
    d.firstFile? (front ++ back) = (d.firstFile? front).or (d.firstFile? back) := by
  simp only [firstFile?, List.find?_append]
  cases front.find? d.isFile <;> rfl

theorem isCanonicalFile_of_firstFile? (names : d.NulFree) {candidates : List Path}
    (absolute : ∀ candidate ∈ candidates, candidate.isAbsolute = true) {p : Path}
    (found : d.firstFile? candidates = some p) : d.IsCanonicalFile p := by
  obtain ⟨candidate, first, rfl⟩ := Option.map_eq_some_iff.mp found
  have listed := List.mem_of_find?_eq_some first
  exact isCanonicalFile_canonicalOrNormal names (absolute candidate listed) (List.find?_some first)

end Disk

namespace Context

variable {ctx : Context} {d : Disk}

def candidates (ctx : Context) (base : Path) : List Path :=
  base :: ctx.extensions.map (fun e => ⟨base.text ++ e⟩)
    ++ ctx.extensions.map fun e => base.join ⟨"index" ++ e⟩

-- Where an index file can be, there is a directory, so no index file is left out.
theorem probe?_eq_firstFile? {base : Path} (filled : base.text ≠ "") :
    ctx.probe? d base = d.firstFile? (ctx.candidates base) := by
  have indexed : (if d.isDirectory base then
        d.firstFile? (ctx.extensions.map fun e => base.join ⟨"index" ++ e⟩) else none) =
      d.firstFile? (ctx.extensions.map fun e => base.join ⟨"index" ++ e⟩) := by
    by_cases directory : d.isDirectory base = true
    next => rw [if_pos directory]
    next =>
      rw [if_neg directory, Disk.firstFile?, List.find?_eq_none.mpr, Option.map_none]
      intro candidate listed file
      obtain ⟨e, -, rfl⟩ := List.mem_map.mp listed
      obtain ⟨place, leads⟩ := Disk.exists_find_of_isFile file
      have relative : Path.isAbsolute ⟨"index" ++ e⟩ = false := by
        simp [Path.isAbsolute, String.toList_append]
      exact directory (Disk.isDirectory_of_find_join filled relative leads)
  rw [probe?, indexed, candidates, List.cons_append, Disk.firstFile?_cons, Disk.firstFile?_append]

def bases (ctx : Context) (specifier : String) (directory : Path) (scope : Scope) : List Path :=
  if isRelativeSpecifier specifier then [directory.join ⟨specifier⟩]
  else
    ((ctx.source scope).aliasBase? specifier).toList ++
      (ctx.source scope).additional.filterMap fun m =>
        (Pattern.match? m.pattern specifier).map (Pattern.expand m.directory)

theorem resolveIn?_eq_findSome? (specifier : String) (directory : Path) (scope : Scope) :
    ctx.resolveIn? d specifier directory scope =
      (ctx.bases specifier directory scope).findSome? (ctx.probe? d) := by
  rw [resolveIn?, bases]
  split
  next => simp
  next =>
    have mapped (mappings : List PathMapping) :
        (mappings.filterMap fun m => (Pattern.match? m.pattern specifier).map
          (Pattern.expand m.directory)).findSome? (ctx.probe? d) =
        mappings.findSome? fun m => (Pattern.match? m.pattern specifier).bind fun matched =>
          ctx.probe? d (Pattern.expand m.directory matched) := by
      induction mappings with
      | nil => rfl
      | cons m rest ih =>
        cases found : Pattern.match? m.pattern specifier <;>
          simp [List.findSome?_cons, found, ih]
    rw [List.findSome?_append, mapped]
    cases aliased : (ctx.source scope).aliasBase? specifier <;> simp [aliased]

end Context

inductive SourceRoots.IsAliased (s : SourceRoots) (specifier : String) : Path → Prop
  | whole {importAlias : String} {directory : Path} (named : s.importAlias = some importAlias)
      (stands : s.directory = some directory)
      (written : specifier = importAlias ∨ specifier = importAlias ++ "/") :
      IsAliased s specifier directory
  | below {importAlias rest : String} {directory : Path} (named : s.importAlias = some importAlias)
      (stands : s.directory = some directory) (filled : rest ≠ "")
      (written : specifier = importAlias ++ "/" ++ rest) :
      IsAliased s specifier (directory.join ⟨rest⟩)

namespace SourceRoots

theorem aliasBase?_eq_some_iff {s : SourceRoots} {specifier : String} {base : Path} :
    s.aliasBase? specifier = some base ↔ s.IsAliased specifier base := by
  simp only [aliasBase?, Option.bind_eq_bind, Option.bind_eq_some_iff, Option.pure_def,
    Option.some.injEq, afterSteps?_eq_some_iff]
  constructor
  next =>
    rintro ⟨importAlias, named, directory, stands, rest, written, rfl⟩
    by_cases done : rest = []
    next =>
      subst done
      refine .whole named stands ?_
      rcases written with ⟨same, -⟩ | more
      next => exact .inl (String.toList_inj.mp same)
      next => exact .inr (String.toList_inj.mp (by simpa [String.toList_append] using more))
    next =>
      have more := written.resolve_left fun same => done same.2
      rw [if_neg (by simpa using done)]
      refine .below named stands (by simpa using done) (String.toList_inj.mp ?_)
      simpa [String.toList_append] using more
  next =>
    intro aliased
    cases aliased with
    | whole named stands written =>
      refine ⟨_, named, _, stands, [], ?_, rfl⟩
      rcases written with rfl | rfl
      next => exact .inl ⟨rfl, rfl⟩
      next => exact .inr (by simp [String.toList_append])
    | @below _ rest _ named stands filled written =>
      refine ⟨_, named, _, stands, rest.toList, .inr (by simp [written, String.toList_append]), ?_⟩
      simp [filled]

structure Anchored (s : SourceRoots) : Prop where
  directory : ∀ p ∈ s.directory, p.isAbsolute = true
  additional : ∀ m ∈ s.additional, m.directory.isAbsolute = true

theorem anchored_ofConfig (d : Disk) {root : Path} (absolute : root.isAbsolute = true)
    (s : SourceConfig) : (ofConfig d root s).Anchored := by
  constructor
  next =>
    intro p given
    obtain ⟨own, -, rfl⟩ := Option.map_eq_some_iff.mp given
    exact Disk.isAbsolute_canonicalOrNormal (Path.isAbsolute_join_of_absolute absolute)
  next =>
    intro m listed
    obtain ⟨own, -, rfl⟩ := List.mem_map.mp listed
    exact Template.isAbsolute_anchor absolute own.directory

end SourceRoots

theorem Pattern.Filled.isAbsolute {template base : Path} {capture : Option String}
    (filled : Filled template capture base) (absolute : template.isAbsolute = true) :
    base.isAbsolute = true := by
  cases filled with
  | plain => exact absolute
  | @star before after capture cut first =>
    cases before with
    | nil => simp [Path.isAbsolute, cut] at absolute
    | cons c rest => simpa [Path.isAbsolute, cut] using absolute
  | step => exact Path.isAbsolute_join_of_absolute absolute

theorem Pattern.isAbsolute_expand {template : Path} (absolute : template.isAbsolute = true)
    (m : PatternMatch) : (Pattern.expand template m).isAbsolute = true := by
  have base := (filled_substitute template m.capture).isAbsolute absolute
  rw [Pattern.expand]
  split
  next => exact base
  next => exact Path.isAbsolute_join_of_absolute base

namespace Context

theorem isAbsolute_bases {ctx : Context} {scope : Scope} (anchored : (ctx.source scope).Anchored)
    {directory : Path} (absolute : directory.isAbsolute = true) {specifier : String} {base : Path}
    (listed : base ∈ ctx.bases specifier directory scope) : base.isAbsolute = true := by
  rw [bases] at listed
  split at listed
  next =>
    obtain rfl := List.mem_singleton.mp listed
    exact Path.isAbsolute_join_of_absolute absolute
  next =>
    rcases List.mem_append.mp listed with aliased | mapped
    next =>
      rw [Option.mem_toList, SourceRoots.aliasBase?_eq_some_iff] at aliased
      cases aliased with
      | whole _ stands => exact anchored.directory _ stands
      | below _ stands => exact Path.isAbsolute_join_of_absolute (anchored.directory _ stands)
    next =>
      obtain ⟨m, given, made⟩ := List.mem_filterMap.mp mapped
      obtain ⟨matched, -, rfl⟩ := Option.map_eq_some_iff.mp made
      exact Pattern.isAbsolute_expand (anchored.additional m given) matched

theorem isAbsolute_candidates {ctx : Context} {base candidate : Path}
    (absolute : base.isAbsolute = true) (listed : candidate ∈ ctx.candidates base) :
    candidate.isAbsolute = true := by
  rw [candidates, List.mem_append, List.mem_cons] at listed
  rcases listed with (rfl | named) | indexed
  next => exact absolute
  next =>
    obtain ⟨e, -, rfl⟩ := List.mem_map.mp named
    obtain ⟨rest, written⟩ : ∃ rest, base.text.toList = '/' :: rest := by
      simpa [Path.isAbsolute, List.head?_eq_some_iff] using absolute
    simp [Path.isAbsolute, String.toList_append, written]
  next =>
    obtain ⟨e, -, rfl⟩ := List.mem_map.mp indexed
    exact Path.isAbsolute_join_of_absolute absolute

variable {ctx : Context} {d start : Disk} {config : Config}

theorem Configured.anchored (configured : ctx.Configured start config) (scope : Scope) :
    (ctx.source scope).Anchored := by
  have absolute := configured.isAbsolute_projectRoot
  cases scope with
  | model =>
    rw [source, configured.models]
    exact SourceRoots.anchored_ofConfig start absolute config.models
  | mixin =>
    rw [source, configured.mixins]
    exact SourceRoots.anchored_ofConfig start absolute config.mixins

theorem findSome?_probe? {bases : List Path} (absolute : ∀ base ∈ bases, base.isAbsolute = true) :
    bases.findSome? (ctx.probe? d) = d.firstFile? (bases.flatMap ctx.candidates) := by
  induction bases with
  | nil => rfl
  | cons base rest ih =>
    have filled : base.text ≠ "" := by
      intro empty
      have rooted := absolute base List.mem_cons_self
      simp [Path.isAbsolute, empty] at rooted
    rw [List.flatMap_cons, Disk.firstFile?_append, ← probe?_eq_firstFile? filled,
      ← ih fun other listed => absolute other (List.mem_cons_of_mem base listed),
      List.findSome?_cons]
    cases ctx.probe? d base <;> rfl

theorem isCanonicalFile_of_findSome? (names : d.NulFree) {bases : List Path}
    (absolute : ∀ base ∈ bases, base.isAbsolute = true) {p : Path}
    (found : bases.findSome? (ctx.probe? d) = some p) : d.IsCanonicalFile p := by
  rw [findSome?_probe? absolute] at found
  refine Disk.isCanonicalFile_of_firstFile? names ?_ found
  intro candidate listed
  obtain ⟨base, given, own⟩ := List.mem_flatMap.mp listed
  exact isAbsolute_candidates (absolute base given) own

theorem resolveFromRoot?_eq_findSome? (specifier : String) (scope : Scope) :
    ctx.resolveFromRoot? d specifier scope =
      (ctx.bases specifier ctx.projectRoot scope
        ++ [ctx.projectRoot.join ⟨specifier⟩]).findSome? (ctx.probe? d) := by
  rw [resolveFromRoot?, resolveIn?_eq_findSome?, List.findSome?_append]
  simp

end Context

theorem Path.IsCanonical.isWithin_iff {p root : Path} (canonical : p.IsCanonical) :
    p.isWithin root = true ↔ root.normalize.components <+: p.components := by
  have same := beq_iff_components.mp canonical.isSettled.normalize_beq
  rw [isWithin, startsWith, same, List.isPrefixOf_iff_prefix]

theorem first_file_resolved {start d : Disk} {config : Config} {ctx : Context}
    (built : Context.ofConfig start config = .ok ctx) (names : d.NulFree) {importer : Path}
    (absolute : importer.isAbsolute = true) (below : (importer == ⟨"/"⟩) = false)
    (specifier : String) (scope : Scope) :
    (∃ directory, importer.parent? = some directory ∧
      directory.components = importer.components.dropLast ∧
      d.FirstFile ((ctx.bases specifier directory scope).flatMap ctx.candidates)
        (ctx.resolve? d specifier importer scope)) ∧
    d.FirstFile ((ctx.bases specifier ctx.projectRoot scope
        ++ [ctx.projectRoot.join ⟨specifier⟩]).flatMap ctx.candidates)
      (ctx.resolveFromRoot? d specifier scope) ∧
    (∀ base, (ctx.source scope).aliasBase? specifier = some base ↔
      (ctx.source scope).IsAliased specifier base) ∧
    (∀ p, ctx.resolve? d specifier importer scope = some p ∨
        ctx.resolveFromRoot? d specifier scope = some p → d.IsCanonicalFile p) ∧
    ∀ p, ctx.resolveMixin? d specifier importer = some p ↔
      ctx.resolve? d specifier importer .mixin = some p ∧
        ∃ root ∈ ctx.mixins.roots, root.normalize.components <+: p.components := by
  have configured := Context.configured_of_ofConfig built
  obtain ⟨directory, above, rooted, steps⟩ := Path.exists_parent? absolute below
  have resolved (other : Scope) : ctx.resolve? d specifier importer other =
      (ctx.bases specifier directory other).findSome? (ctx.probe? d) := by
    rw [Context.resolve?, above, Option.bind_some, Context.resolveIn?_eq_findSome?]
  have inDirectory (other : Scope) :
      ∀ base ∈ ctx.bases specifier directory other, base.isAbsolute = true :=
    fun _ => Context.isAbsolute_bases (configured.anchored other) rooted
  have inRoot : ∀ base ∈ ctx.bases specifier ctx.projectRoot scope
      ++ [ctx.projectRoot.join ⟨specifier⟩], base.isAbsolute = true := by
    intro base listed
    rcases List.mem_append.mp listed with own | last
    next =>
      have root := configured.isAbsolute_projectRoot
      exact Context.isAbsolute_bases (configured.anchored scope) root own
    next =>
      rw [List.mem_singleton.mp last]
      exact Path.isAbsolute_join_of_absolute configured.isAbsolute_projectRoot
  refine ⟨⟨directory, above, steps, ?_⟩, ?_, fun _ => SourceRoots.aliasBase?_eq_some_iff, ?_, ?_⟩
  next =>
    rw [resolved, Context.findSome?_probe? (inDirectory scope)]
    exact Disk.firstFile_firstFile? _
  next =>
    rw [Context.resolveFromRoot?_eq_findSome?, Context.findSome?_probe? inRoot]
    exact Disk.firstFile_firstFile? _
  next =>
    rintro p (found | found)
    next =>
      rw [resolved] at found
      exact Context.isCanonicalFile_of_findSome? names (inDirectory scope) found
    next =>
      rw [Context.resolveFromRoot?_eq_findSome?] at found
      exact Context.isCanonicalFile_of_findSome? names inRoot found
  next =>
    intro p
    rw [Context.resolveMixin?, Option.filter_eq_some_iff, List.any_eq_true]
    refine and_congr_right fun found => exists_congr fun root => and_congr_right fun _ => ?_
    rw [resolved] at found
    have own := Context.isCanonicalFile_of_findSome? names (inDirectory .mixin) found
    exact own.isCanonical.isWithin_iff

def shadowedDisk : Disk where
  entries := [
    (["models"], .directory),
    (["models", "user.js"], .file "".toUTF8),
    (["mixins"], .directory),
    (["mixins", "dated"], .directory),
    (["mixins", "dated", "index.js"], .file "".toUTF8),
    (["mixins", "dated.ts"], .link ⟨"../shared/dated.ts"⟩),
    (["shared"], .directory),
    (["shared", "dated.ts"], .file "".toUTF8)]
  workingDirectory := []

def shadowedConfig : Config where
  projectRoot := ⟨"/"⟩
  mixins := { importAlias := some "app/mixins", directory := some ⟨"mixins"⟩ }

def shadowedContext : Context where
  projectRoot := ⟨"/"⟩
  extensions := defaultExtensions
  models := ⟨none, none, [], []⟩
  mixins := ⟨some "app/mixins", some ⟨"/mixins"⟩, [], [⟨"/mixins"⟩]⟩
  output := {}
  importMappings := []
  intermediateModels := []
  exclude := []
  dryRun := false

theorem first_file_resolved_shadowed :
    Context.ofConfig shadowedDisk shadowedConfig = .ok shadowedContext ∧ shadowedDisk.NulFree ∧
      Path.isAbsolute ⟨"/models/user.js"⟩ = true ∧
      ((⟨"/models/user.js"⟩ : Path) == ⟨"/"⟩) = false ∧
      shadowedContext.resolve? shadowedDisk "app/mixins/dated" ⟨"/models/user.js"⟩ .mixin =
        some ⟨"/shared/dated.ts"⟩ ∧
      shadowedDisk.IsCanonicalFile ⟨"/shared/dated.ts"⟩ ∧
      shadowedContext.resolveMixin? shadowedDisk "app/mixins/dated" ⟨"/models/user.js"⟩ = none := by
  have built : Context.ofConfig shadowedDisk shadowedConfig = .ok shadowedContext := by
    with_unfolding_all rfl
  have names : shadowedDisk.NulFree := by
    simp only [Disk.NulFree, shadowedDisk]
    decide
  have absolute : Path.isAbsolute ⟨"/models/user.js"⟩ = true := by decide
  have below : ((⟨"/models/user.js"⟩ : Path) == ⟨"/"⟩) = false := by decide
  have found : shadowedContext.resolve? shadowedDisk "app/mixins/dated" ⟨"/models/user.js"⟩ .mixin =
      some ⟨"/shared/dated.ts"⟩ := by
    have text : (shadowedContext.resolve? shadowedDisk "app/mixins/dated" ⟨"/models/user.js"⟩
        .mixin).map Path.text = some "/shared/dated.ts" := by decide +kernel
    obtain ⟨⟨text⟩, found, rfl⟩ := Option.map_eq_some_iff.mp text
    exact found
  obtain ⟨-, -, -, canonical, within⟩ :=
    first_file_resolved built names absolute below "app/mixins/dated" .mixin
  refine ⟨built, names, absolute, below, found, canonical _ (.inl found), ?_⟩
  rw [Option.eq_none_iff_forall_ne_some]
  intro p mixin
  obtain ⟨resolved, root, listed, inside⟩ := (within p).mp mixin
  obtain rfl : root = ⟨"/mixins"⟩ := List.mem_singleton.mp listed
  obtain rfl := Option.some.inj (found.symm.trans resolved)
  revert inside
  decide +kernel

end SchemaMigration
