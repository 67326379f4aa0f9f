import Mathlib.Data.List.Basic
import SchemaMigration.Migration.Discovery
import SchemaMigration.Proofs.PathSets
import SchemaMigration.Proofs.PathSteps
import SchemaMigration.Specifier.Resolve

set_option autoImplicit false

namespace SchemaMigration

def Place.IsProper (place : Place) : Prop :=
  ∀ name ∈ place, (Component.name name).Proper

-- The path of a place, written with single slashes.
def Path.IsCanonical (p : Path) : Prop :=
  ∃ place : Place, place.IsProper ∧ p = Disk.pathOf place

structure Disk.ProperNames (d : Disk) : Prop where
  entries : ∀ entry ∈ d.entries, Place.IsProper entry.1
  workingDirectory : Place.IsProper d.workingDirectory

namespace Place

theorem isProper_dropLast {place : Place} (proper : IsProper place) : IsProper place.dropLast :=
  fun name member => proper name ((List.dropLast_sublist place).subset member)

theorem isProper_concat {place : Place} {piece : String} (proper : IsProper place)
    (noSlash : '/' ∉ piece.toList) (filled : ¬(piece == "" || piece == ".") = true)
    (down : ¬(piece == "..") = true) : IsProper (place ++ [piece]) := by
  simp only [Bool.or_eq_true, beq_iff_eq, not_or] at filled down
  have unlike : piece.toList ≠ [] ∧ piece.toList ≠ ['.'] ∧ piece.toList ≠ ['.', '.'] := by
    refine ⟨by simpa using filled.1, ?_, ?_⟩ <;> intro same
    · exact filled.2 (String.toList_inj.mp same)
    · exact down (String.toList_inj.mp same)
  intro name member
  rcases List.mem_append.mp member with before | last
  · exact proper name before
  · rw [List.mem_singleton.mp last]
    exact ⟨noSlash, by simp [Component.ofPiece?, Component.text, unlike]⟩

end Place

namespace Disk

theorem isAbsolute_pathOf (place : Place) : (pathOf place).isAbsolute = true := by
  simp [pathOf, Path.isAbsolute, String.toList_append]

theorem components_pathOf {place : Place} (proper : place.IsProper) :
    (pathOf place).components = .root :: place.map .name := by
  have written : (pathOf place).text.toList = [] ++ '/' ::
      (['/'] : List Char).intercalate ((place.map Component.name).map (·.text.toList)) := by
    simp [pathOf, String.toList_append, Function.comp_def, Component.text]
  have names : ∀ step ∈ place.map Component.name, step.Proper := by
    simpa [Place.IsProper] using proper
  rw [Path.components_of_absolute (isAbsolute_pathOf place), Path.steps, written,
    Path.readSteps_append_slash,
    Path.readSteps_intercalate _ names, Path.readSteps_nil, List.nil_append]

end Disk

theorem Path.IsCanonical.eq_of_beq {p q : Path} (canonical : p.IsCanonical)
    (other : q.IsCanonical) (same : (p == q) = true) : p = q := by
  obtain ⟨place, proper, rfl⟩ := canonical
  obtain ⟨further, named, rfl⟩ := other
  have steps := beq_iff_components.mp same
  rw [Disk.components_pathOf proper, Disk.components_pathOf named, List.cons.injEq] at steps
  rw [List.map_injective_iff.mpr (fun _ _ => Component.name.inj) steps.2]

namespace Disk

theorem mem_entries_of_entryAt? {d : Disk} {place : Place} {entry : Entry} (below : place ≠ [])
    (there : d.entryAt? place = some entry) : (place, entry) ∈ d.entries := by
  rw [entryAt?, if_neg (by simpa using below)] at there
  obtain ⟨before, after, whole, -⟩ := List.lookup_eq_some_iff.mp there
  simp [whole]

theorem noSlash_piecesOf {p : Path} {piece : String} (member : piece ∈ piecesOf p) :
    '/' ∉ piece.toList := by
  obtain ⟨chars, inside, rfl⟩ := List.mem_map.mp member
  rw [String.toList_ofList]
  exact Path.not_mem_of_mem_splitOn inside

section Walk

variable {d : Disk} {followLast : Bool}

-- An absent target is no matter here, since only what exists is given out.
def EndsProperly (walk : Place → List String → Except DiskError Target) : Prop :=
  ∀ place pieces found, place.IsProper → (∀ piece ∈ pieces, '/' ∉ piece.toList) →
    walk place pieces = .ok (.existing found) → found.IsProper

theorem walkWith_proper {onLink : Place → List String → Except DiskError Target}
    (proper : EndsProperly onLink) : EndsProperly (d.walkWith onLink followLast) := by
  intro place pieces found start plain walked
  fun_induction walkWith d onLink followLast place pieces with
  | case1 place => cases walked; exact start
  | case2 | case5 | case6 => cases walked
  | case3 place piece rest _ _ ih =>
    exact ih start (fun other member => plain other (List.mem_cons_of_mem piece member)) walked
  | case4 place piece rest _ _ _ ih =>
    exact ih (Place.isProper_dropLast start)
      (fun other member => plain other (List.mem_cons_of_mem piece member)) walked
  | case7 place piece rest _ filled down next =>
    rw [Except.ok.injEq, Target.existing.injEq] at walked
    rw [← walked]
    exact Place.isProper_concat start (plain piece List.mem_cons_self) filled down
  | case8 place piece rest _ _ _ next target _ _ =>
    -- The target of a link is written in a path too, so its pieces hold no slash.
    refine proper _ _ found ?_ ?_ walked
    · split
      · simp [Place.IsProper]
      · exact start
    · intro other member
      rcases List.mem_append.mp member with linked | later
      · exact noSlash_piecesOf linked
      · exact plain other (List.mem_cons_of_mem piece later)
  | case9 place piece rest _ filled down next _ _ _ ih =>
    exact ih (Place.isProper_concat start (plain piece List.mem_cons_self) filled down)
      (fun other member => plain other (List.mem_cons_of_mem piece member)) walked

theorem walk_proper (links : Nat) : EndsProperly (d.walk followLast links) := by
  induction links with
  | zero => exact walkWith_proper fun _ _ _ _ _ walked => nomatch walked
  | succ links ih => exact walkWith_proper ih

theorem find_eq_ok_iff {p : Path} {place : Place} :
    d.find p = .ok place ↔ '\x00' ∉ p.text.toList ∧ p.text ≠ "" ∧
      d.walk true maxLinks (if p.isAbsolute then [] else d.workingDirectory) (piecesOf p) =
        .ok (.existing place) := by
  rw [find, locate]
  by_cases nul : '\x00' ∈ p.text.toList
  next => simp [nul]
  next =>
    by_cases empty : p.text = ""
    next => simp [empty]
    next =>
      rw [if_neg (by simpa using nul), if_neg (by simpa using empty)]
      generalize d.walk true maxLinks _ (piecesOf p) = walked
      rcases walked with fault | ⟨found | found⟩ <;> simp [nul, empty]

theorem find_proper (start : Place.IsProper d.workingDirectory) {p : Path} {place : Place}
    (found : d.find p = .ok place) : place.IsProper := by
  obtain ⟨-, -, walked⟩ := find_eq_ok_iff.mp found
  refine walk_proper maxLinks _ _ place ?_ (fun _ => noSlash_piecesOf) walked
  split
  · simp [Place.IsProper]
  · exact start

theorem exists_find_of_isFile {p : Path} (file : d.isFile p = true) :
    ∃ place, d.find p = .ok place := by
  cases found : d.find p with
  | ok place => exact ⟨place, rfl⟩
  | error => simp [isFile, stat?, found] at file

theorem isCanonical_canonicalOrNormal (start : Place.IsProper d.workingDirectory) {p : Path}
    (file : d.isFile p = true) : (d.canonicalOrNormal p).IsCanonical := by
  -- The normal form is only given for what is not there, and a file is.
  obtain ⟨place, found⟩ := exists_find_of_isFile file
  rw [canonicalOrNormal, canonicalize, found]
  exact ⟨place, find_proper start found, rfl⟩

theorem canonicalize_of_find {p : Path} {place : Place} (found : d.find p = .ok place) :
    d.canonicalize p = .ok (d.canonicalOrNormal p) := by
  simp only [canonicalOrNormal, canonicalize, found]

theorem eq_pathOf_of_canonicalize {p q : Path} (canonical : d.canonicalize p = .ok q) :
    ∃ place, d.find p = .ok place ∧ q = pathOf place := by
  rw [canonicalize] at canonical
  split at canonical
  next place found => exact ⟨place, found, (Except.ok.inj canonical).symm⟩
  next => cases canonical

theorem isAbsolute_canonicalOrNormal_of_isFile {p : Path} (file : d.isFile p = true) :
    (d.canonicalOrNormal p).isAbsolute = true := by
  obtain ⟨place, found⟩ := exists_find_of_isFile file
  rw [canonicalOrNormal, canonicalize, found]
  exact isAbsolute_pathOf place

end Walk

end Disk

namespace Context

variable {ctx : Context} {d : Disk} {p : Path}

theorem exists_of_firstFile? {paths : List Path} (found : d.firstFile? paths = some p) :
    ∃ candidate, d.isFile candidate = true ∧ d.canonicalOrNormal candidate = p := by
  obtain ⟨candidate, first, same⟩ := Option.map_eq_some_iff.mp found
  exact ⟨candidate, List.find?_some first, same⟩

theorem exists_of_probe? {base : Path} (probed : ctx.probe? d base = some p) :
    ∃ candidate, d.isFile candidate = true ∧ d.canonicalOrNormal candidate = p := by
  rw [probe?] at probed
  split at probed
  next file => exact ⟨base, file, Option.some.inj probed⟩
  next =>
    rcases Option.or_eq_some_iff.mp probed with named | ⟨-, indexed⟩
    next => exact exists_of_firstFile? named
    next => exact exists_of_firstFile? (Option.ite_none_right_eq_some.mp indexed).2

theorem exists_of_resolveIn? {specifier : String} {directory : Path} {scope : Scope}
    (resolved : ctx.resolveIn? d specifier directory scope = some p) :
    ∃ base, ctx.probe? d base = some p := by
  rw [resolveIn?] at resolved
  split at resolved
  next => exact ⟨_, resolved⟩
  next =>
    rcases Option.or_eq_some_iff.mp resolved with aliased | ⟨-, mapped⟩
    next =>
      obtain ⟨base, -, probed⟩ := Option.bind_eq_some_iff.mp aliased
      exact ⟨base, probed⟩
    next =>
      obtain ⟨m, -, found⟩ := List.exists_of_findSome?_eq_some mapped
      obtain ⟨matched, -, probed⟩ := Option.bind_eq_some_iff.mp found
      exact ⟨_, probed⟩

theorem probe?_isCanonical (start : Place.IsProper d.workingDirectory) {base : Path}
    (probed : ctx.probe? d base = some p) : p.IsCanonical := by
  obtain ⟨candidate, file, rfl⟩ := exists_of_probe? probed
  exact Disk.isCanonical_canonicalOrNormal start file

theorem resolveIn?_isCanonical (start : Place.IsProper d.workingDirectory) {specifier : String}
    {directory : Path} {scope : Scope}
    (resolved : ctx.resolveIn? d specifier directory scope = some p) :
    p.IsCanonical := by
  obtain ⟨base, probed⟩ := exists_of_resolveIn? resolved
  exact probe?_isCanonical start probed

theorem resolve?_isCanonical (start : Place.IsProper d.workingDirectory) {specifier : String}
    {importer : Path} {scope : Scope}
    (resolved : ctx.resolve? d specifier importer scope = some p) : p.IsCanonical := by
  obtain ⟨directory, -, inside⟩ := Option.bind_eq_some_iff.mp resolved
  exact resolveIn?_isCanonical start inside

theorem resolveFromRoot?_isCanonical (start : Place.IsProper d.workingDirectory)
    {specifier : String} {scope : Scope}
    (resolved : ctx.resolveFromRoot? d specifier scope = some p) : p.IsCanonical := by
  rcases Option.or_eq_some_iff.mp resolved with inside | ⟨-, probed⟩
  · exact resolveIn?_isCanonical start inside
  · exact probe?_isCanonical start probed

theorem sourcesBelow_isCanonical (names : d.ProperNames) {root : Path}
    (found : p ∈ ctx.sourcesBelow d root) : p.IsCanonical := by
  rw [sourcesBelow] at found
  split at found
  · split at found
    · obtain ⟨place, below, rfl⟩ := List.mem_map.mp (List.mem_filter.mp found).1
      obtain ⟨entry, member, kept⟩ := List.mem_filterMap.mp below
      have same : entry.1 = place := by
        obtain ⟨listed, held⟩ := entry
        simp only at kept
        split at kept
        · split at kept <;> cases kept
          rfl
        · cases kept
      exact ⟨place, same ▸ names.entries entry member, rfl⟩
    · cases found
  · cases found

theorem mem_sourcesBelow_of_mem_discover
    (found : p ∈ (ctx.discover d).models ++ (ctx.discover d).mixins) :
    ∃ root, p ∈ ctx.sourcesBelow d root := by
  have kept : p ∈ Path.sortedSet (((ctx.models.roots ++ ctx.mixins.roots).flatMap
      (ctx.sourcesBelow d)).filter fun p => !ctx.isExcluded p) := by
    rcases List.mem_append.mp found with model | mixin
    · exact (List.mem_filter.mp model).1
    · exact (List.mem_filter.mp mixin).1
  obtain ⟨root, -, below⟩ :=
    List.mem_flatMap.mp (List.mem_filter.mp (Path.mem_of_mem_sortedSet kept)).1
  exact ⟨root, below⟩

theorem discover_isCanonical (names : d.ProperNames)
    (found : p ∈ (ctx.discover d).models ++ (ctx.discover d).mixins) : p.IsCanonical := by
  obtain ⟨root, below⟩ := mem_sourcesBelow_of_mem_discover found
  exact sourcesBelow_isCanonical names below

theorem probe?_isAbsolute {base : Path} (probed : ctx.probe? d base = some p) :
    p.isAbsolute = true := by
  obtain ⟨candidate, file, rfl⟩ := exists_of_probe? probed
  exact Disk.isAbsolute_canonicalOrNormal_of_isFile file

theorem resolveFromRoot?_isAbsolute {specifier : String} {scope : Scope}
    (resolved : ctx.resolveFromRoot? d specifier scope = some p) : p.isAbsolute = true := by
  rcases Option.or_eq_some_iff.mp resolved with inside | ⟨-, probed⟩
  · obtain ⟨base, probed⟩ := exists_of_resolveIn? inside
    exact probe?_isAbsolute probed
  · exact probe?_isAbsolute probed

theorem discover_isAbsolute (found : p ∈ (ctx.discover d).models ++ (ctx.discover d).mixins) :
    p.isAbsolute = true := by
  obtain ⟨root, below⟩ := mem_sourcesBelow_of_mem_discover found
  rw [sourcesBelow] at below
  split at below
  · split at below
    · obtain ⟨place, -, rfl⟩ := List.mem_map.mp (List.mem_filter.mp below).1
      exact Disk.isAbsolute_pathOf place
    · cases below
  · cases below

end Context

end SchemaMigration
