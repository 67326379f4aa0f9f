import SchemaMigration.Proofs.Forecast
import SchemaMigration.Proofs.PathPieces

set_option autoImplicit false

namespace SchemaMigration

namespace ArtifactKind

def family : ArtifactKind → String
  | .schema | .trait => ".schema"
  | .resourceExtension | .traitExtension => ".ext"
  | .resourceType | .traitType => ".schema.types"
  | .extensionType => ".ext.types"
  | .other => ""

def fileExtension (kind : ArtifactKind) (source : Path) : String :=
  match kind with
  | .schema | .trait | .resourceExtension | .traitExtension => source.extension?.getD "js"
  | _ => "ts"

def ending (kind : ArtifactKind) (source : Path) : String :=
  kind.family ++ ("." ++ kind.fileExtension source)

theorem ending_toList (kind : ArtifactKind) (source : Path) :
    (kind.ending source).toList =
      kind.family.toList ++ '.' :: (kind.fileExtension source).toList := by
  simp [ending]

theorem mem_families {kind : ArtifactKind} (known : kind ≠ .other) :
    kind.family ∈ [".schema", ".ext", ".schema.types", ".ext.types"] := by
  cases kind <;> simp_all [family]

theorem two_lt_length_family {kind : ArtifactKind} (known : kind ≠ .other) :
    2 < kind.family.toList.length := by
  have listed := mem_families known
  simp only [List.mem_cons, List.not_mem_nil, or_false] at listed
  rcases listed with same | same | same | same <;> rw [same] <;> decide

end ArtifactKind

namespace Path

theorem proper_fileName? {p : Path} {name : String} (named : p.fileName? = some name) :
    Component.Proper (.name name) :=
  steps_proper (List.mem_of_getLast? (fileName?_eq_some_iff.mp named))

theorem extension?_plain {p : Path} {extension : String} (found : p.extension? = some extension) :
    '.' ∉ extension.toList ∧ '/' ∉ extension.toList := by
  simp only [extension?, Option.bind_eq_bind, Option.bind_eq_some_iff] at found
  obtain ⟨name, named, chars, cut, written⟩ := found
  obtain rfl := Option.some.inj written
  have noSlash := (proper_fileName? named).1
  rw [String.toList_ofList]
  have spanned := List.span_eq_takeWhile_dropWhile (p := (· != '.')) (l := name.toList.reverse)
  rw [splitExtension, spanned] at cut
  have kept : chars = (name.toList.reverse.takeWhile (· != '.')).reverse := by
    split at cut
    · cases cut
    · cases cut
    next same => simp_all
  subst kept
  constructor
  · intro dot
    simpa using List.all_eq_true.mp List.all_takeWhile '.' (List.mem_reverse.mp dot)
  · intro slash
    exact noSlash (List.mem_reverse.mp
      ((List.takeWhile_sublist _).subset (List.mem_reverse.mp slash)))

end Path

theorem ArtifactKind.fileExtension_plain (kind : ArtifactKind) (source : Path) :
    '.' ∉ (kind.fileExtension source).toList ∧ '/' ∉ (kind.fileExtension source).toList := by
  have kept : '.' ∉ (source.extension?.getD "js").toList ∧
      '/' ∉ (source.extension?.getD "js").toList := by
    cases found : source.extension? with
    | none => decide
    | some extension => exact Path.extension?_plain found
  have fixed : '.' ∉ "ts".toList ∧ '/' ∉ "ts".toList := by decide
  cases kind with
  | schema | trait | resourceExtension | traitExtension => exact kept
  | resourceType | traitType | extensionType | other => exact fixed

theorem append_dot_inj {before after first second : List Char} (firstPlain : '.' ∉ first)
    (secondPlain : '.' ∉ second) (same : before ++ '.' :: first = after ++ '.' :: second) :
    before = after ∧ first = second := by
  have cut {text : List Char} (plain : '.' ∉ text) (rest : List Char) :
      (rest ++ '.' :: text).reverse.takeWhile (· != '.') = text.reverse := by
    have own : ∀ c ∈ text.reverse, (c != '.') = true := by
      intro c member
      simpa using fun dot : c = '.' => plain (by simpa [dot] using member)
    simp [List.takeWhile_append_of_pos own]
  have last := congrArg (fun text => text.reverse.takeWhile (· != '.')) same
  simp only [cut firstPlain, cut secondPlain, List.reverse_inj] at last
  subst last
  exact ⟨List.append_cancel_right same, rfl⟩

theorem append_family_inj {before after : List Char} {first second : String}
    (known : first ∈ [".schema", ".ext", ".schema.types", ".ext.types"])
    (other : second ∈ [".schema", ".ext", ".schema.types", ".ext.types"])
    (same : before ++ first.toList = after ++ second.toList) : before = after ∧ first = second := by
  have backwards := congrArg List.reverse same
  simp only [List.reverse_append] at backwards
  simp only [List.mem_cons, List.not_mem_nil, or_false] at known other
  rcases known with rfl | rfl | rfl | rfl <;> rcases other with rfl | rfl | rfl | rfl <;>
    simp_all

namespace Context

variable (ctx : Context) (role : Role) (kind : ArtifactKind) (source : Path)

def baseName : String :=
  (ctx.stem? source).getD (if kind = .extensionType then ctx.entityOf role source else "")

variable {kind} in
theorem outputPath_eq (known : kind ≠ .other) :
    ctx.outputPath role kind source =
      (ctx.place kind "" source).directory.join
        ⟨ctx.baseName role kind source ++ kind.ending source⟩ := by
  have kept : (source.extension?.map ("." ++ ·)).getD ".js" =
      "." ++ source.extension?.getD "js" := by
    cases source.extension? <;> rfl
  cases kind <;> simp_all [outputPath, place, derivedFileName, ArtifactKind.policy, baseName,
    ArtifactKind.ending, ArtifactKind.family, ArtifactKind.fileExtension, String.append_assoc]

end Context

theorem lastPiece_dasherized {p : Path} (nameless : p.fileName? = none) :
    Path.lastPiece p.dasherized.toList ∈ [[], ['.'], ['.', '.']] := by
  have written : p.dasherized.toList = (['/'] : List Char).intercalate
      (p.components.map fun step => (Naming.dasherize step.text).toList) := by
    simp [Path.dasherized, Function.comp_def]
  rw [written]
  rcases List.eq_nil_or_concat p.components with none | ⟨before, last, split⟩
  · simp [none, Path.lastPiece]
  · -- The last step is no name, and what is no name is not changed.
    have own : Path.lastPiece (Naming.dasherize last.text).toList ∈ [[], ['.'], ['.', '.']] := by
      cases last with
      | root | current | parent => decide +kernel
      | name text => simp [Path.fileName?, split] at nameless
    rwa [split, List.concat_eq_append, List.map_append, List.map_singleton,
      Path.lastPiece_intercalate_concat]

theorem lastPiece_entityName {p : Path} {extensions : List String}
    (nameless : (p.stripExtension extensions).fileName? = none) (roots : List Path) :
    Path.lastPiece (entityName p roots extensions).toList ∈ [[], ['.'], ['.', '.']] := by
  have bare : entityName.bareName (p.stripExtension extensions) = "" := by
    simp [entityName.bareName, nameless]
  simp only [entityName]
  split
  next name nested =>
    split
    · rw [bare]
      decide
    · simp only [Option.bind_eq_some_iff, Option.map_eq_some_iff] at nested
      obtain ⟨root, -, below, found, rfl⟩ := nested
      exact lastPiece_dasherized (Path.fileName?_below? found nameless)
  · rw [bare]
    decide

namespace Context

variable (ctx : Context) (role : Role) (kind : ArtifactKind) (source : Path)

theorem baseName_cases :
    (∃ stem, ctx.stem? source = some stem ∧ ctx.baseName role kind source = stem ∧
      Component.Proper (.name stem)) ∨
    ctx.stem? source = none ∧
      Path.lastPiece (ctx.baseName role kind source).toList ∈ [[], ['.'], ['.', '.']] := by
  cases stem : ctx.stem? source with
  | some text =>
    exact .inl ⟨text, rfl, by simp [baseName, stem], Path.proper_fileName? stem⟩
  | none =>
    refine .inr ⟨rfl, ?_⟩
    rw [baseName, stem, Option.getD_none]
    split
    · exact lastPiece_entityName stem _
    · decide

end Context

structure Emission where
  role : Role
  source : Path
  artifact : Artifact

def Context.sourceOf (ctx : Context) (d : Disk) (v : Visit) : Path :=
  ((ctx.prepare d).loaded.parsed.get? v.path).elim v.path SourceFile.path

def Context.emissions (ctx : Context) (d : Disk) : List Emission :=
  (ctx.visits d).flatMap fun v => (v.emitted ctx (ctx.prepare d)).map fun a =>
    ⟨v.role, ctx.sourceOf d v, a⟩

namespace Emission

variable {ctx : Context} {d : Disk} {x y : Emission}

structure Placed (ctx : Context) (x : Emission) : Prop where
  known : x.artifact.kind ≠ .other
  path : x.artifact.path = ctx.outputPath x.role x.artifact.kind x.source

def directory (x : Emission) (ctx : Context) : Path :=
  (ctx.place x.artifact.kind "" x.source).directory

def fileName (x : Emission) (ctx : Context) : String :=
  ctx.baseName x.role x.artifact.kind x.source ++ x.artifact.kind.ending x.source

structure Shares (ctx : Context) (x y : Emission) : Prop where
  family : x.artifact.kind.family = y.artifact.kind.family
  extension : x.artifact.kind.fileExtension x.source = y.artifact.kind.fileExtension y.source
  stem : ctx.stem? x.source = ctx.stem? y.source
  directory : (x.directory ctx == y.directory ctx) = true
  -- They come from two files, or from one that is taken for a base of models and for a mixin.
  source : (x.source == y.source) = true → x.role = .intermediate ∧ y.role = .mixin

theorem Placed.path_eq (placed : x.Placed ctx) :
    x.artifact.path = (x.directory ctx).join ⟨x.fileName ctx⟩ :=
  placed.path.trans (ctx.outputPath_eq x.role x.source placed.known)

theorem noSlash_ending (x : Emission) : '/' ∉ (x.artifact.kind.ending x.source).toList := by
  have plain := (x.artifact.kind.fileExtension_plain x.source).2
  have family : '/' ∉ x.artifact.kind.family.toList := by
    cases x.artifact.kind <;> decide
  simp [ArtifactKind.ending, plain, family]

theorem Placed.proper_append (placed : x.Placed ctx) {base : List Char} (noSlash : '/' ∉ base) :
    Component.Proper
      (.name (String.ofList (base ++ (x.artifact.kind.ending x.source).toList))) := by
  apply Component.proper_name
  · simp [noSlash, x.noSlash_ending]
  · have long := ArtifactKind.two_lt_length_family placed.known
    rw [String.toList_ofList, ArtifactKind.ending, String.toList_append, List.length_append,
      List.length_append]
    omega

theorem Placed.fileName? (placed : x.Placed ctx) :
    x.artifact.path.fileName? = some (String.ofList
      (Path.lastPiece (ctx.baseName x.role x.artifact.kind x.source).toList ++
        (x.artifact.kind.ending x.source).toList)) := by
  rw [placed.path_eq]
  apply Path.fileName?_join
  · rw [fileName, String.toList_append, Path.lastPiece_append x.noSlash_ending,
      String.toList_ofList]
  · exact placed.proper_append (Path.noSlash_lastPiece _)

theorem Placed.components (placed : x.Placed ctx)
    (plain : '/' ∉ (ctx.baseName x.role x.artifact.kind x.source).toList) :
    x.artifact.path.components = (x.directory ctx).components ++ [.name (x.fileName ctx)] := by
  have proper := placed.proper_append plain
  rw [← String.toList_append, String.ofList_toList] at proper
  rw [placed.path_eq]
  exact Path.components_join_name _ proper

theorem noSlash_baseName (source : (ctx.stem? x.source).isSome = true ∨
      x.artifact.kind ≠ .extensionType) :
    '/' ∉ (ctx.baseName x.role x.artifact.kind x.source).toList := by
  rcases ctx.baseName_cases x.role x.artifact.kind x.source with
    ⟨stem, -, same, proper⟩ | ⟨none, -⟩
  · rw [same]
    exact proper.1
  · have derived : x.artifact.kind ≠ .extensionType := by
      simpa [none] using source
    simp [Context.baseName, none, derived]

theorem Placed.names_eq (first : x.Placed ctx) (second : y.Placed ctx)
    (same : (x.artifact.path == y.artifact.path) = true) :
    x.artifact.kind.family = y.artifact.kind.family ∧
      x.artifact.kind.fileExtension x.source = y.artifact.kind.fileExtension y.source ∧
      ctx.stem? x.source = ctx.stem? y.source := by
  have names := Path.fileName?_congr same
  rw [first.fileName?, second.fileName?, Option.some.injEq, String.ofList_inj,
    ArtifactKind.ending_toList, ArtifactKind.ending_toList, ← List.append_assoc,
    ← List.append_assoc] at names
  obtain ⟨families, extensions⟩ := append_dot_inj
    (x.artifact.kind.fileExtension_plain x.source).1
    (y.artifact.kind.fileExtension_plain y.source).1 names
  obtain ⟨bases, family⟩ := append_family_inj (ArtifactKind.mem_families first.known)
    (ArtifactKind.mem_families second.known) families
  refine ⟨family, String.toList_inj.mp extensions, ?_⟩
  rcases ctx.baseName_cases x.role x.artifact.kind x.source with
    ⟨stem, found, base, proper⟩ | ⟨none, dots⟩ <;>
  rcases ctx.baseName_cases y.role y.artifact.kind y.source with
    ⟨other, found', base', proper'⟩ | ⟨none', dots'⟩
  · rw [base, base', Path.lastPiece_name proper, Path.lastPiece_name proper'] at bases
    rw [found, found', String.toList_inj.mp bases]
  · rw [base, Path.lastPiece_name proper] at bases
    exact absurd (bases ▸ dots') proper.not_mem_dots
  · rw [base', Path.lastPiece_name proper'] at bases
    exact absurd (bases ▸ dots) proper'.not_mem_dots
  · rw [none, none']

theorem Placed.directory_eq (first : x.Placed ctx) (second : y.Placed ctx)
    (same : (x.artifact.path == y.artifact.path) = true) :
    (x.directory ctx == y.directory ctx) = true := by
  have family := (first.names_eq second same).1
  by_cases extension : x.artifact.kind = .extensionType
  · -- All of these go to one directory.
    have other : y.artifact.kind = .extensionType := by
      cases kind : y.artifact.kind <;> simp_all [ArtifactKind.family]
    simp [directory, extension, other, Context.place, ArtifactKind.policy]
  · have other : y.artifact.kind ≠ .extensionType := by
      intro equal
      cases kind : x.artifact.kind <;> simp_all [ArtifactKind.family]
    have steps := Path.beq_iff_components.mp same
    rw [first.components (noSlash_baseName (.inr extension)),
      second.components (noSlash_baseName (.inr other))] at steps
    exact Path.beq_iff_components.mpr (List.append_inj_left' steps rfl)

theorem Placed.path_beq (first : x.Placed ctx) (second : y.Placed ctx) (shares : Shares ctx x y)
    (stem : (ctx.stem? x.source).isSome = true) :
    (x.artifact.path == y.artifact.path) = true := by
  obtain ⟨text, found⟩ := Option.isSome_iff_exists.mp stem
  have found' := shares.stem ▸ found
  have names : x.fileName ctx = y.fileName ctx := by
    simp only [fileName, Context.baseName, found, found', ArtifactKind.ending, shares.family,
      shares.extension, Option.getD_some]
  rw [Path.beq_iff_components, first.components (noSlash_baseName (.inl stem)),
    second.components (noSlash_baseName (.inl (by simp [found']))),
    Path.beq_iff_components.mp shares.directory, names]

end Emission

namespace Context

variable (ctx : Context) (d : Disk)

theorem kindsOf_families (f : SourceFile) (role : Role) :
    (∀ kind ∈ ctx.kindsOf f role, kind ≠ .other) ∧
      (ctx.kindsOf f role).Pairwise fun first second => first.family ≠ second.family := by
  rw [kindsOf]
  cases (ctx.extensionFor f role).1.isSome <;> cases role <;> cases f.language <;> decide

theorem sourceOf_beq (v : Visit) : (ctx.sourceOf d v == v.path) = true := by
  rw [sourceOf]
  cases read : (ctx.prepare d).loaded.parsed.get? v.path with
  | none => exact BEq.rfl
  | some f => exact (ctx.prepare_keyed d v.path f read).1

variable {ctx d}

theorem emitted_outlines {v : Visit} (member : v ∈ ctx.visits d) :
    v.emitted ctx (ctx.prepare d) = [] ∨
      ∃ f, ctx.sourceOf d v = f.path ∧
        ((v.emitted ctx (ctx.prepare d)).map Artifact.outline).Sublist (ctx.outlines f v.role) := by
  have given := v.given_artifacts ctx (ctx.prepare d)
  have judged := ctx.judged_visit member
  rw [Visit.planned] at given
  generalize v.verdict ctx (ctx.prepare d) = verdict at judged given
  cases judged with
  | unread | unconnected | undeclared =>
    simp only [List.map_eq_nil_iff] at given
    simp [Visit.emitted, given, emittedOf]
  | @generate f declaration read used declared =>
    let plan := (v.before.project ctx (ctx.prepare d)).planDeclared f v.role declaration
    have planned : (v.given ctx (ctx.prepare d)).map Prod.fst = plan.artifacts := given
    have outlines : plan.artifacts.map Artifact.outline = ctx.outlines f v.role :=
      Project.outlines_planDeclared _ f v.role declaration
    refine .inr ⟨f, by simp [sourceOf, read], ?_⟩
    rw [← outlines, ← planned]
    exact (emittedOf_sublist _).map _

theorem emitted_placed {v : Visit} (member : v ∈ ctx.visits d) :
    (∀ a ∈ v.emitted ctx (ctx.prepare d), Emission.Placed ctx ⟨v.role, ctx.sourceOf d v, a⟩) ∧
      (v.emitted ctx (ctx.prepare d)).Pairwise fun a b => a.kind.family ≠ b.kind.family := by
  rcases emitted_outlines member with none | ⟨f, source, outlined⟩
  · simp [none]
  · obtain ⟨known, families⟩ := ctx.kindsOf_families f v.role
    constructor
    · intro a emitted
      have listed := outlined.subset (List.mem_map_of_mem emitted)
      obtain ⟨kind, kept, same⟩ := List.mem_map.mp listed
      obtain ⟨rfl, -, path⟩ := Outline.mk.injEq .. ▸ same
      exact ⟨known _ kept, by rw [source, path]⟩
    · have outlines : (ctx.outlines f v.role).Pairwise fun o p => o.kind.family ≠ p.kind.family :=
        List.pairwise_map.mpr families
      have kept := outlines.sublist outlined
      rw [List.pairwise_map] at kept
      exact kept

variable (ctx d) in
-- Of a run's files only a base of models can come again, as a mixin.
theorem agenda_apart :
    (ctx.prepare d).agenda.Pairwise fun entry later =>
      (entry.2 == later.2) = true → entry.1 = .intermediate ∧ later.1 = .mixin := by
  have never {paths : List (Role × Path)} (distinct : Path.Distinct (paths.map Prod.snd)) :
      paths.Pairwise fun entry later =>
        (entry.2 == later.2) = true → entry.1 = .intermediate ∧ later.1 = .mixin := by
    refine (List.pairwise_map.mp distinct).imp ?_
    intro entry later apart same
    rw [same] at apart
    cases apart
  have distinct := ctx.modelVisits_distinct d
  rw [modelVisits_paths] at distinct
  obtain ⟨-, mixins, crossed⟩ := List.pairwise_append.mp (ctx.discoveredSources_distinct d)
  refine List.pairwise_append.mpr ⟨never (by simpa [Function.comp_def] using distinct),
    never (by simpa [Function.comp_def, prepare, Path.Distinct] using mixins), ?_⟩
  intro entry earlier later mixin same
  obtain ⟨q, isMixin, rfl⟩ := List.mem_map.mp mixin
  rcases List.mem_append.mp earlier with base | model
  · obtain ⟨p, -, rfl⟩ := List.mem_map.mp base
    exact ⟨rfl, rfl⟩
  · obtain ⟨p, plain, rfl⟩ := List.mem_map.mp model
    have apart := crossed p (List.mem_of_mem_filter plain) q isMixin
    rw [show (p == q) = true from same] at apart
    cases apart

end Context

theorem artifacts_eq_emissions (ctx : Context) (d : Disk) :
    (migrate ctx d).2.artifacts.map (fun r => (r.kind, r.name, r.path)) =
      (ctx.emissions d).map fun x =>
        (x.artifact.kind, x.artifact.name, ctx.display x.artifact.path) := by
  rw [migrate_eq_visits, ctx.lastState_artifacts]
  simp [Context.emissions, List.map_flatMap, RunState.recordOf, Function.comp_def]

theorem emissions_share_paths (ctx : Context) (d : Disk) :
    (migrate ctx d).2.artifacts.map (fun r => (r.kind, r.name, r.path)) =
      (ctx.emissions d).map (fun x =>
        (x.artifact.kind, x.artifact.name, ctx.display x.artifact.path)) ∧
    (ctx.emissions d).Pairwise fun x y =>
      ((x.artifact.path == y.artifact.path) = true → Emission.Shares ctx x y) ∧
      ((ctx.stem? x.source).isSome = true → Emission.Shares ctx x y →
        (x.artifact.path == y.artifact.path) = true) := by
  constructor
  · exact artifacts_eq_emissions ctx d
  · have agenda := ctx.agenda_apart d
    rw [← ctx.visits_entries, List.pairwise_map] at agenda
    refine List.pairwise_flatMap.mpr ⟨?_, agenda.imp_of_mem ?_⟩
    · intro v member
      obtain ⟨placed, families⟩ := ctx.emitted_placed member
      refine List.pairwise_map.mpr (families.imp_of_mem ?_)
      intro a b first second apart
      refine ⟨fun same => ?_, fun _ shares => absurd shares.family apart⟩
      exact absurd ((placed a first).names_eq (placed b second) same).1 apart
    · intro v w first second apart x emitted y emitted'
      obtain ⟨a, own, rfl⟩ := List.mem_map.mp emitted
      obtain ⟨b, own', rfl⟩ := List.mem_map.mp emitted'
      have placed := (ctx.emitted_placed first).1 a own
      have placed' := (ctx.emitted_placed second).1 b own'
      refine ⟨fun same => ?_, fun stem shares => placed.path_beq placed' shares stem⟩
      obtain ⟨family, extension, stem⟩ := placed.names_eq placed' same
      refine ⟨family, extension, stem, placed.directory_eq placed' same, ?_⟩
      intro source
      apply apart
      exact BEq.trans (BEq.symm (ctx.sourceOf_beq d v)) (BEq.trans source (ctx.sourceOf_beq d w))

def namesakesDisk : Disk where
  entries := [
    (["m"], .directory),
    (["m", "a"], .directory),
    (["m", "a", "user.js"], .file "export default class{}".toUTF8),
    (["m", "b"], .directory),
    (["m", "b", "user.js"], .file "export default class{}".toUTF8)]
  workingDirectory := []

def namesakesConfig : Config where
  projectRoot := ⟨"/"⟩
  models := { directory := some ⟨"m"⟩ }

def namesakesContext : Context where
  projectRoot := ⟨"/"⟩
  extensions := defaultExtensions
  models := ⟨none, some ⟨"/m"⟩, [], [⟨"/m"⟩]⟩
  mixins := ⟨none, none, [], []⟩
  output := {}
  importMappings := []
  intermediateModels := []
  exclude := []
  dryRun := false

theorem namesakes_found :
    ((namesakesContext.models.roots ++ namesakesContext.mixins.roots).flatMap
      (namesakesContext.sourcesBelow namesakesDisk)).map Path.text =
        ["/m/a/user.js", "/m/b/user.js"] := by
  decide +kernel

theorem namesakes_discovered :
    namesakesContext.discover namesakesDisk =
      ⟨[⟨"/m/a/user.js"⟩, ⟨"/m/b/user.js"⟩], [], []⟩ := by
  let both : List Path := [⟨"/m/a/user.js"⟩, ⟨"/m/b/user.js"⟩]
  have found : (namesakesContext.models.roots ++ namesakesContext.mixins.roots).flatMap
      (namesakesContext.sourcesBelow namesakesDisk) = both :=
    List.map_injective_iff.mpr (fun ⟨_⟩ ⟨_⟩ => congrArg Path.mk) namesakes_found
  have kept : both.filter (fun p => !namesakesContext.isExcluded p) = both := rfl
  have sorted : Path.sort both = both := List.mergeSort_of_pairwise (by decide)
  simp only [Context.discover, found, kept, Path.sortedSet, sorted]
  with_unfolding_all rfl

theorem namesakes_paths :
    (namesakesContext.emissions namesakesDisk).map (·.artifact.path.text) =
      ["/app/data/resources/user.schema.js", "/app/data/resources/user.schema.js"] := by
  simp only [Context.emissions, Context.visits, Context.prepare, namesakes_discovered]
  decide +kernel

theorem emissions_share_paths_namesakes :
    Context.ofConfig namesakesDisk namesakesConfig = .ok namesakesContext ∧
      ¬(namesakesContext.emissions namesakesDisk).Pairwise fun x y =>
        (x.artifact.path == y.artifact.path) = false := by
  refine ⟨by with_unfolding_all rfl, fun apart => ?_⟩
  have texts : ((namesakesContext.emissions namesakesDisk).map (·.artifact.path.text)).Nodup := by
    refine List.pairwise_map.mpr (apart.imp fun {x y} unlike same => ?_)
    have equal : x.artifact.path = y.artifact.path := congrArg Path.mk same
    rw [equal, BEq.rfl] at unlike
    cases unlike
  rw [namesakes_paths] at texts
  exact absurd texts (by decide)

end SchemaMigration
