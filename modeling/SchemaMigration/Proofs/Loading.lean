import SchemaMigration.Proofs.CanonicalPaths
import SchemaMigration.Proofs.Intermediates

set_option autoImplicit false

namespace SchemaMigration

namespace Path

def Distinct (paths : List Path) : Prop :=
  paths.Pairwise fun p q => (p == q) = false

theorem Distinct.eq_of_beq {paths : List Path} (distinct : Distinct paths) {p q : Path}
    (first : p ∈ paths) (second : q ∈ paths) (same : (p == q) = true) : p = q := by
  have symmetric : Std.Symm fun p q : Path => (p == q) = false :=
    ⟨fun a b apart => by rwa [BEq.comm]⟩
  by_contra other
  have apart := List.Pairwise.forall distinct first second other
  rw [same] at apart
  cases apart

theorem sortedSet_distinct (paths : List Path) : Distinct (sortedSet paths) :=
  (sortedSet_before paths).imp And.right

theorem Distinct.concat {paths : List Path} (distinct : Distinct paths) {p : Path}
    (fresh : paths.contains p = false) : Distinct (paths ++ [p]) := by
  refine List.pairwise_append.mpr ⟨distinct, List.pairwise_singleton _ _, ?_⟩
  intro q member r last
  rw [List.mem_singleton.mp last, Bool.eq_false_iff]
  intro same
  have known := List.contains_iff_exists_mem_beq.mpr ⟨q, member, BEq.symm same⟩
  rw [fresh] at known
  cases known

end Path

def loadFails (d : Disk) (p : Path) : Bool :=
  match loadSource d p with
  | .ok _ => false
  | .error _ => true

theorem loadSource_toOption_eq_none {d : Disk} {p : Path} :
    (loadSource d p).toOption = none ↔ loadFails d p = true := by
  rw [loadFails]
  cases loadSource d p <;> simp [Except.toOption]

theorem loadSource_toOption_eq_some {d : Disk} {p : Path} {f : SourceFile} :
    (loadSource d p).toOption = some f ↔ loadSource d p = .ok f := by
  cases loadSource d p <;> simp [Except.toOption]

def Context.toldOnReading (ctx : Context) (d : Disk) (p : Path) : List Diagnostic :=
  match loadSource d p with
  | .ok f => f.warnings.map fun message => .warning (ctx.display p) .extract malformedField message
  | .error fault => [fault.diagnostic (ctx.display p)]

namespace Loaded

-- What was read of a list of files; `others` are the diagnostics that are not about reading.
structure Reads (ctx : Context) (d : Disk) (others : List Diagnostic) (paths : List Path)
    (loaded : Loaded) : Prop where
  parsed : ∀ p, loaded.parsed.get? p =
    (paths.find? (p == ·)).bind fun q => (loadSource d q).toOption
  failed : loaded.failed = paths.filter (loadFails d)
  told : ∀ m, m ∈ loaded.diagnostics ↔ m ∈ others ∨ ∃ p ∈ paths, m ∈ ctx.toldOnReading d p

namespace Reads

variable {ctx : Context} {d : Disk} {others : List Diagnostic} {paths : List Path}
  {loaded : Loaded}

theorem add (reads : Reads ctx d others paths loaded) {p : Path}
    (fresh : paths.contains p = false) :
    Reads ctx d others (paths ++ [p]) (loaded.add ctx d p) := by
  have unknown (q : Path) (same : (q == p) = true) : paths.find? (q == ·) = none := by
    rw [List.find?_eq_none]
    intro r member equal
    have known := List.contains_iff_exists_mem_beq.mpr ⟨r, member, BEq.trans (BEq.symm same) equal⟩
    rw [fresh] at known
    cases known
  have told (m : Diagnostic) : (m ∈ loaded.diagnostics ∨ m ∈ ctx.toldOnReading d p) ↔
      m ∈ others ∨ ∃ q ∈ paths ++ [p], m ∈ ctx.toldOnReading d q := by
    simp [reads.told, or_and_right, exists_or, or_assoc]
  rw [Loaded.add]
  cases read : loadSource d p with
  | ok f =>
    refine ⟨?_, by simp [reads.failed, loadFails, read],
      fun m => by simpa [Context.toldOnReading, read] using told m⟩
    intro q
    rw [PathMap.get?_insert, List.find?_append]
    split
    next same => simp [unknown q same, same, read, Except.toOption]
    next other => simp [reads.parsed, other]
  | error fault =>
    refine ⟨?_, by simp [reads.failed, loadFails, read],
      fun m => by simpa [Context.toldOnReading, read] using told m⟩
    intro q
    rw [reads.parsed, List.find?_append]
    by_cases same : (q == p) = true
    · simp [unknown q same, same, read, Except.toOption]
    · simp [same]

theorem known (reads : Reads ctx d others paths loaded) (p : Path) :
    (loaded.parsed.contains p || loaded.failed.contains p) = paths.contains p := by
  rw [PathMap.contains, reads.parsed, reads.failed]
  cases found : paths.find? (p == ·) with
  | none =>
    have absent : ∀ q ∈ paths, ¬(p == q) = true := List.find?_eq_none.mp found
    rw [Bool.eq_iff_iff]
    simp only [Option.bind_none, Option.isSome_none, Bool.false_or,
      List.contains_iff_exists_mem_beq, List.mem_filter]
    constructor
    · rintro ⟨q, ⟨member, -⟩, same⟩
      exact ⟨q, member, same⟩
    · rintro ⟨q, member, same⟩
      exact absurd same (absent q member)
  | some q =>
    have member := List.mem_of_find?_eq_some found
    have same : (p == q) = true := List.find?_some found
    have listed := List.contains_iff_exists_mem_beq.mpr ⟨q, member, same⟩
    cases read : loadSource d q with
    | ok f => simp [listed, read, Except.toOption]
    | error fault =>
      have failed : (paths.filter (loadFails d)).contains p = true :=
        List.contains_iff_exists_mem_beq.mpr
          ⟨q, List.mem_filter.mpr ⟨member, by simp [loadFails, read]⟩, same⟩
      rw [failed, listed, Bool.or_true]

theorem addNew (reads : Reads ctx d others paths loaded) (p : Path) :
    Reads ctx d others (if paths.contains p then paths else paths ++ [p])
      (loaded.addNew ctx d p) := by
  rw [Loaded.addNew, reads.known]
  cases fresh : paths.contains p with
  | true => exact reads
  | false => exact reads.add fresh

theorem foldl_add (reads : Reads ctx d others paths loaded) {more : List Path}
    (distinct : Path.Distinct (paths ++ more)) :
    Reads ctx d others (paths ++ more)
      (more.foldl (fun loaded p => loaded.add ctx d p) loaded) := by
  induction more generalizing paths loaded with
  | nil => simpa using reads
  | cons p rest ih =>
    have fresh : paths.contains p = false := by
      rw [Bool.eq_false_iff]
      intro known
      obtain ⟨q, member, same⟩ := List.contains_iff_exists_mem_beq.mp known
      have apart := (List.pairwise_append.mp distinct).2.2 q member p List.mem_cons_self
      rw [BEq.symm same] at apart
      cases apart
    simpa using ih (reads.add fresh) (by simpa using distinct)

theorem foldl_addNew (reads : Reads ctx d others paths loaded) {more : List Path}
    (distinct : Path.Distinct more) :
    Reads ctx d others (paths ++ more.filter fun p => !paths.contains p)
      (more.foldl (fun loaded p => loaded.addNew ctx d p) loaded) := by
  induction more generalizing paths loaded with
  | nil => simpa using reads
  | cons p rest ih =>
    obtain ⟨apart, others⟩ := List.pairwise_cons.mp distinct
    have later := ih (reads.addNew p) others
    cases known : paths.contains p with
    | true => simpa [known] using later
    | false =>
      have unlike : rest.filter (fun q => !(paths ++ [p]).contains q) =
          rest.filter fun q => !paths.contains q := by
        refine List.filter_congr fun q member => ?_
        have other : (q == p) = false := by
          rw [BEq.comm]
          exact apart q member
        simp [other]
      rw [known, if_neg Bool.false_ne_true, unlike] at later
      simpa [known] using later

variable (distinct : Path.Distinct paths) (reads : Reads ctx d others paths loaded)

include distinct reads

theorem get?_of_mem {p : Path} (member : p ∈ paths) :
    loaded.parsed.get? p = (loadSource d p).toOption := by
  have found : paths.find? (p == ·) = some p := by
    cases search : paths.find? (p == ·) with
    | none => exact absurd BEq.rfl (List.find?_eq_none.mp search p member)
    | some q =>
      rw [distinct.eq_of_beq member (List.mem_of_find?_eq_some search) (List.find?_some search)]
  rw [reads.parsed, found, Option.bind_some]

theorem failed_of_mem {p : Path} (member : p ∈ paths) :
    loaded.failed.contains p = loadFails d p := by
  rw [reads.failed, Bool.eq_iff_iff, List.contains_iff_exists_mem_beq]
  constructor
  · rintro ⟨q, kept, same⟩
    obtain ⟨listed, fails⟩ := List.mem_filter.mp kept
    rwa [distinct.eq_of_beq member listed same]
  · intro fails
    exact ⟨p, List.mem_filter.mpr ⟨member, fails⟩, BEq.rfl⟩

end Reads

end Loaded

namespace Intermediates

theorem distinct_foldl_add (resolve : String → Option Path) (specifiers : List String)
    {found : Intermediates} (distinct : Path.Distinct found.paths) :
    Path.Distinct (specifiers.foldl (fun found s => found.add s (resolve s)) found).paths := by
  induction specifiers generalizing found with
  | nil => exact distinct
  | cons s rest ih =>
    apply ih
    simp only
    cases resolve s with
    | none => exact distinct
    | some p =>
      simp only [add]
      split
      next => exact distinct
      next fresh => exact distinct.concat (by simpa using fresh)

theorem ofContext_distinct (ctx : Context) (d : Disk) : Path.Distinct (ofContext ctx d).paths :=
  distinct_foldl_add _ _ List.Pairwise.nil

theorem unresolved_foldl_add (resolve : String → Option Path) (specifiers : List String)
    (found : Intermediates) :
    (specifiers.foldl (fun found s => found.add s (resolve s)) found).unresolved =
      found.unresolved ++ specifiers.filter fun s => (resolve s).isNone := by
  induction specifiers generalizing found with
  | nil => simp
  | cons s rest ih =>
    rw [List.foldl_cons, ih]
    cases resolved : resolve s with
    | none => simp [add, resolved]
    | some p =>
      simp only [add, List.filter_cons, resolved, Option.isNone_some, Bool.false_eq_true, if_false]
      split <;> rfl

end Intermediates

namespace Context

variable (ctx : Context) (d : Disk)

def discoveredSources : List Path :=
  (ctx.discover d).models ++ (ctx.discover d).mixins

def filesRead : List Path :=
  ctx.discoveredSources d ++
    (Intermediates.ofContext ctx d).paths.filter fun p => !(ctx.discoveredSources d).contains p

theorem discoveredSources_distinct : Path.Distinct (ctx.discoveredSources d) := by
  have kept (paths : List Path) (keep : Path → Bool) :
      Path.Distinct ((Path.sortedSet paths).filter keep) :=
    (Path.sortedSet_distinct paths).sublist List.filter_sublist
  refine List.pairwise_append.mpr ⟨kept _ _, kept _ _, ?_⟩
  intro p model q mixin
  rw [Bool.eq_false_iff]
  intro same
  obtain ⟨first, isModel⟩ := List.mem_filter.mp model
  obtain ⟨second, isMixin⟩ := List.mem_filter.mp mixin
  -- A file under both kinds of roots counts as one of them only.
  rw [(Path.sortedSet_distinct _).eq_of_beq first second same] at isModel
  simp [Context.isModel, isMixin] at isModel

theorem filesRead_distinct : Path.Distinct (ctx.filesRead d) := by
  refine List.pairwise_append.mpr ⟨ctx.discoveredSources_distinct d, ?_, ?_⟩
  · exact (Intermediates.ofContext_distinct ctx d).sublist List.filter_sublist
  · intro p source q late
    rw [Bool.eq_false_iff]
    intro same
    have known := List.contains_iff_exists_mem_beq.mpr ⟨p, source, BEq.symm same⟩
    simp [known] at late

theorem contains_filesRead (p : Path) :
    (ctx.filesRead d).contains p = true ↔
      (ctx.discoveredSources d).contains p = true ∨ ctx.IsIntermediate d p := by
  rw [filesRead, List.contains_append, Path.contains_filter
    (fun _ _ same => by rw [List.contains_congr same]), ← Intermediates.contains_ofContext]
  cases (ctx.discoveredSources d).contains p <;> simp

def toldOnBases : List Diagnostic :=
  (Intermediates.ofContext ctx d).unresolved.map Intermediates.unresolvedDiagnostic ++
    (BaseOrder.ofMembers (Intermediates.ofContext ctx d).paths
      (Project.baseModel? ctx d (ctx.prepare d).loaded.parsed)).broken.map
      (Intermediates.cycleDiagnostic ctx)

theorem prepare_reads :
    (ctx.prepare d).loaded.Reads ctx d (ctx.toldOnBases d) (ctx.filesRead d) := by
  have nothing : Loaded.Reads ctx d [] [] Loaded.empty :=
    ⟨fun _ => rfl, rfl, by simp [Loaded.empty]⟩
  have adding (more : List Diagnostic) {loaded : Loaded} {paths : List Path}
      {others : List Diagnostic} (reads : loaded.Reads ctx d others paths) :
      Loaded.Reads ctx d (others ++ more) paths
        { loaded with diagnostics := loaded.diagnostics ++ more } := by
    refine ⟨reads.parsed, reads.failed, ?_⟩
    intro m
    rw [List.mem_append, reads.told, List.mem_append, or_right_comm]
  have sources := nothing.foldl_add (ctx.discoveredSources_distinct d)
  exact adding _ ((adding _ sources).foldl_addNew (Intermediates.ofContext_distinct ctx d))

end Context

theorem loadSource_path {d : Disk} {p : Path} {f : SourceFile} (read : loadSource d p = .ok f) :
    f.path = p := by
  rw [loadSource] at read
  split at read
  · cases read
  next text _ =>
    split at read
    next file parsed =>
      cases read
      rw [SourceFile.read] at parsed
      split at parsed
      · cases parsed
      · split at parsed <;> cases parsed
        rfl
    · cases read

namespace Loaded

-- Each file that was read stands under its own path, which is one of those to be read.
def Keyed (wanted : Path → Prop) (loaded : Loaded) : Prop :=
  ∀ p f, loaded.parsed.get? p = some f → (f.path == p) = true ∧ wanted f.path

variable {wanted : Path → Prop} {loaded : Loaded}

theorem Keyed.add (keyed : Keyed wanted loaded) (ctx : Context) (d : Disk) {p : Path}
    (listed : wanted p) : Keyed wanted (loaded.add ctx d p) := by
  intro q f held
  simp only [Loaded.add] at held
  split at held
  next g read =>
    rw [PathMap.get?_insert] at held
    split at held
    next same =>
      cases held
      rw [loadSource_path read]
      exact ⟨BEq.symm same, listed⟩
    next => exact keyed q f held
  next => exact keyed q f held

theorem Keyed.addNew (keyed : Keyed wanted loaded) (ctx : Context) (d : Disk) {p : Path}
    (listed : wanted p) : Keyed wanted (loaded.addNew ctx d p) := by
  rw [Loaded.addNew]
  split
  · exact keyed
  · exact keyed.add ctx d listed

theorem Keyed.foldl {step : Loaded → Path → Loaded}
    (keeps : ∀ loaded p, Keyed wanted loaded → wanted p → Keyed wanted (step loaded p))
    (keyed : Keyed wanted loaded) (paths : List Path) (listed : ∀ p ∈ paths, wanted p) :
    Keyed wanted (paths.foldl step loaded) := by
  induction paths generalizing loaded with
  | nil => exact keyed
  | cons p rest ih =>
    exact ih (keeps loaded p keyed (listed p List.mem_cons_self))
      fun q member => listed q (List.mem_cons_of_mem p member)

end Loaded

theorem Intermediates.mem_foldl_add {resolve : String → Option Path} {specifiers : List String}
    {found : Intermediates} {p : Path}
    (member : p ∈ (specifiers.foldl (fun found s => found.add s (resolve s)) found).paths) :
    p ∈ found.paths ∨ ∃ s, resolve s = some p := by
  induction specifiers generalizing found with
  | nil => exact .inl member
  | cons s rest ih =>
    rcases ih member with added | later
    · cases target : resolve s with
      | none => simp_all [add]
      | some q =>
        simp only [target, add] at added
        split at added
        · exact .inl added
        · rcases List.mem_append.mp added with old | last
          · exact .inl old
          · exact .inr ⟨s, by rw [target, List.mem_singleton.mp last]⟩
    · exact .inr later

namespace Context

section Keyed

variable (ctx : Context) (d : Disk) {wanted : Path → Prop}
  (resolved : ∀ specifier p, ctx.resolveFromRoot? d specifier .model = some p → wanted p)

include resolved in
theorem resolveIntermediates_keyed {sources : Loaded} (keyed : Loaded.Keyed wanted sources) :
    Loaded.Keyed wanted (ctx.resolveIntermediates d sources).1 := by
  have told (diagnostics : List Diagnostic) : Loaded.Keyed wanted { sources with diagnostics } :=
    keyed
  refine (told _).foldl (fun loaded p keyed => keyed.addNew ctx d)
    (Intermediates.ofContext ctx d).paths ?_
  intro p found
  rcases Intermediates.mem_foldl_add found with none | ⟨specifier, target⟩
  · cases none
  · exact resolved specifier p target

include resolved in
theorem prepare_keyed_of
    (found : ∀ p ∈ (ctx.discover d).models ++ (ctx.discover d).mixins, wanted p) :
    Loaded.Keyed wanted (ctx.prepare d).loaded := by
  have empty : Loaded.Keyed wanted Loaded.empty := fun p f held => nomatch held
  exact ctx.resolveIntermediates_keyed d resolved
    (empty.foldl (fun loaded p keyed => keyed.add ctx d) _ found)

end Keyed

theorem prepare_keyed (ctx : Context) (d : Disk) :
    Loaded.Keyed (fun p => d.ProperNames → p.IsCanonical) (ctx.prepare d).loaded :=
  ctx.prepare_keyed_of d
    (fun _ _ target names => resolveFromRoot?_isCanonical names.workingDirectory target)
    fun _ found names => discover_isCanonical names found

theorem prepare_keyed_isAbsolute (ctx : Context) (d : Disk) :
    Loaded.Keyed (fun p => p.isAbsolute = true) (ctx.prepare d).loaded :=
  ctx.prepare_keyed_of d (fun _ _ target => resolveFromRoot?_isAbsolute target)
    fun _ found => discover_isAbsolute found

theorem prepare_basesFirst (ctx : Context) (d : Disk) :
    ∃ reported, BaseOrder.BasesFirst (ctx.IsIntermediate d)
      (ctx.ExtendsIntermediate d (ctx.prepare d).loaded.parsed) (ctx.prepare d).intermediates
      reported :=
  ⟨_, ctx.ofContext_basesFirst d _⟩

end Context

end SchemaMigration
