import Mathlib.Data.List.Forall2
import SchemaMigration.Proofs.Reachability
import SchemaMigration.Migration.Report

set_option autoImplicit false

namespace SchemaMigration

open Naming

def ImportsMixin (ctx : Context) (d : Disk) (f : SourceFile) (mixin : Path) : Prop :=
  ∃ i ∈ f.imports, ∃ target, ctx.resolveMixin? d i.specifier f.path = some target ∧
    (target == mixin) = true

def NamesMixin (ctx : Context) (f : SourceFile) (mixin : Path) : Prop :=
  ∃ field ∈ f.fields, field.kind = .belongsTo ∧
    field.options.get? "polymorphic" = some (.bool true) ∧
    ∃ type, field.type? = some type ∧
      normalTypeName type ∈ mixinNames mixin ctx.mixins.roots ctx.extensions

def Lists (mixins : List Path) (used : Path → Prop) (paths : List Path) : Prop :=
  ∀ p, paths.contains p = true ↔ ∃ mixin ∈ mixins, (p == mixin) = true ∧ used mixin

def IsEntry (mixins : List Path) (used : Path → Prop) : Option (List Path) → Prop
  | none => ∀ mixin ∈ mixins, ¬used mixin
  | some targets => targets ≠ [] ∧ Lists mixins used targets

namespace Context

theorem contains_importedMixins (ctx : Context) (d : Disk) (mixins : List Path) (f : SourceFile) :
    Lists mixins (ImportsMixin ctx d f) (ctx.importedMixins d mixins f) := by
  intro p
  rw [importedMixins, List.contains_iff_exists_mem_beq]
  constructor
  · rintro ⟨target, member, same⟩
    obtain ⟨resolved, known⟩ := List.mem_filter.mp member
    obtain ⟨i, imported, found⟩ := List.mem_filterMap.mp resolved
    obtain ⟨mixin, listed, equal⟩ := List.contains_iff_exists_mem_beq.mp known
    exact ⟨mixin, listed, BEq.trans same equal, i, imported, target, found, equal⟩
  · rintro ⟨mixin, listed, same, i, imported, target, found, equal⟩
    refine ⟨target, List.mem_filter.mpr ⟨List.mem_filterMap.mpr ⟨i, imported, found⟩, ?_⟩,
      BEq.trans same (BEq.symm equal)⟩
    exact List.contains_iff_exists_mem_beq.mpr ⟨mixin, listed, equal⟩

theorem isPolymorphic_iff {field : Field} (kind : field.kind = .belongsTo) :
    field.isPolymorphic = true ↔ field.options.get? "polymorphic" = some (.bool true) := by
  rw [Field.isPolymorphic, kind]
  cases field.options.get? "polymorphic" with
  | none => simp [FieldKind.isRelationship]
  | some value => cases value <;> simp [FieldKind.isRelationship, Literal.asBool?]

theorem namesMixin_iff (ctx : Context) (f : SourceFile) (mixin : Path) :
    NamesMixin ctx f mixin ↔ ∃ type ∈ (polymorphicTypes f).map normalTypeName,
      type ∈ mixinNames mixin ctx.mixins.roots ctx.extensions := by
  simp only [polymorphicTypes, List.mem_map, List.mem_filterMap, List.mem_filter,
    Bool.and_eq_true, beq_iff_eq]
  constructor
  · rintro ⟨field, member, kind, polymorphic, type, given, named⟩
    exact ⟨_, ⟨type, ⟨field, ⟨member, kind, (isPolymorphic_iff kind).mpr polymorphic⟩, given⟩, rfl⟩,
      named⟩
  · rintro ⟨_, ⟨type, ⟨field, ⟨member, kind, polymorphic⟩, given⟩, rfl⟩, named⟩
    exact ⟨field, member, kind, (isPolymorphic_iff kind).mp polymorphic, type, given, named⟩

theorem contains_polymorphicMixins (ctx : Context) (mixins : List Path) (f : SourceFile) :
    Lists mixins (NamesMixin ctx f) (ctx.polymorphicMixins mixins f) := by
  intro p
  rw [polymorphicMixins, List.contains_iff_exists_mem_beq]
  simp only [List.mem_filter, List.any_eq_true, List.contains_iff_mem, ← namesMixin_iff]
  constructor
  · rintro ⟨mixin, ⟨listed, named⟩, same⟩
    exact ⟨mixin, listed, same, named⟩
  · rintro ⟨mixin, listed, same, named⟩
    exact ⟨mixin, ⟨listed, named⟩, same⟩

theorem contains_modelTargets (ctx : Context) (d : Disk) (mixins : List Path) (f : SourceFile) :
    Lists mixins (fun mixin => ImportsMixin ctx d f mixin ∨ NamesMixin ctx f mixin)
      (ctx.modelTargets d mixins f) := by
  intro p
  rw [modelTargets, Path.contains_sortedSet, List.contains_append, Bool.or_eq_true,
    ctx.contains_importedMixins d mixins f p, ctx.contains_polymorphicMixins mixins f p]
  constructor
  · rintro (⟨mixin, listed, same, imported⟩ | ⟨mixin, listed, same, named⟩)
    · exact ⟨mixin, listed, same, .inl imported⟩
    · exact ⟨mixin, listed, same, .inr named⟩
  · rintro ⟨mixin, listed, same, imported | named⟩
    · exact .inl ⟨mixin, listed, same, imported⟩
    · exact .inr ⟨mixin, listed, same, named⟩

theorem contains_mixinTargets (ctx : Context) (d : Disk) (mixins : List Path) (own : Path)
    (f : SourceFile) :
    Lists mixins (fun mixin => (mixin == own) = false ∧ ImportsMixin ctx d f mixin)
      (ctx.mixinTargets d mixins own f) := by
  intro p
  rw [mixinTargets, Path.contains_sortedSet]
  rw [Path.contains_filter (fun _ _ same => by rw [bne, bne, BEq.congr_left same]),
    Bool.and_eq_true, ctx.contains_importedMixins d mixins f p, bne, Bool.not_eq_true']
  constructor
  · rintro ⟨⟨mixin, listed, same, imported⟩, other⟩
    exact ⟨mixin, listed, same, (BEq.congr_left same).symm.trans other, imported⟩
  · rintro ⟨mixin, listed, same, other, imported⟩
    exact ⟨⟨mixin, listed, same, imported⟩, (BEq.congr_left same).trans other⟩

theorem mixinTargets_congr (ctx : Context) (d : Disk) (mixins : List Path) {p q : Path}
    (same : (p == q) = true) (f : SourceFile) :
    ctx.mixinTargets d mixins p f = ctx.mixinTargets d mixins q f := by
  simp only [mixinTargets, bne, BEq.congr_right same]

def targetsOf? (parsed : PathMap SourceFile) (targets : Path → SourceFile → List Path) (p : Path) :
    Option (List Path) :=
  (parsed.get? p).bind fun f =>
    if f.path.isAbsolute = true ∧ targets p f ≠ [] then some (targets p f) else none

def addEntry (parsed : PathMap SourceFile) (targets : Path → SourceFile → List Path)
    (found : Dependencies) (p : Path) : Dependencies :=
  match targetsOf? parsed targets p with
  | none => found
  | some reached => found.insert p reached

section Edges

variable (parsed : PathMap SourceFile) (targets : Path → SourceFile → List Path)

theorem edges_eq_foldl (paths : List Path) :
    edges parsed targets paths = paths.foldl (addEntry parsed targets) [] := by
  rw [edges]
  congr
  funext found p
  cases read : parsed.get? p with
  | none => simp [addEntry, targetsOf?, read]
  | some f =>
    by_cases absolute : f.path.isAbsolute = true <;>
      by_cases empty : targets p f = [] <;> simp [addEntry, targetsOf?, read, absolute, empty]

theorem edges_distinct (paths : List Path) : PathMap.Distinct (edges parsed targets paths) := by
  have aux (found : Dependencies) (distinct : PathMap.Distinct found) :
      PathMap.Distinct (paths.foldl (addEntry parsed targets) found) := by
    induction paths generalizing found with
    | nil => exact distinct
    | cons p rest ih =>
      apply ih
      unfold addEntry
      split
      · exact distinct
      · exact PathMap.insert_distinct distinct p _
  rw [edges_eq_foldl]
  exact aux [] List.Pairwise.nil

variable (congr : ∀ p q f, (p == q) = true → targets p f = targets q f)

include congr in
theorem targetsOf?_congr {p q : Path} (same : (p == q) = true) :
    targetsOf? parsed targets p = targetsOf? parsed targets q := by
  rw [targetsOf?, targetsOf?, PathMap.get?_congr parsed same]
  cases parsed.get? q with
  | none => rfl
  | some f => simp only [Option.bind_some, congr p q f same]

include congr in
theorem get?_addEntry (found : Dependencies) (p q : Path) :
    PathMap.get? (addEntry parsed targets found p) q =
      if q == p then (targetsOf? parsed targets q).or (PathMap.get? found q)
      else PathMap.get? found q := by
  by_cases same : (q == p) = true
  · rw [if_pos same, targetsOf?_congr parsed targets congr same, addEntry]
    cases targetsOf? parsed targets p with
    | none => rfl
    | some reached => simp [PathMap.get?_insert, same]
  · rw [if_neg same, addEntry]
    split
    · rfl
    · simp [PathMap.get?_insert, same]

include congr in
theorem get?_edges (paths : List Path) (p : Path) :
    PathMap.get? (edges parsed targets paths) p =
      if paths.contains p then targetsOf? parsed targets p else none := by
  -- A path that is listed again only gets its own entry again.
  have aux (found : Dependencies) :
      PathMap.get? (paths.foldl (addEntry parsed targets) found) p =
        if paths.contains p then (targetsOf? parsed targets p).or (PathMap.get? found p)
        else PathMap.get? found p := by
    induction paths generalizing found with
    | nil => rfl
    | cons first rest ih =>
      rw [List.foldl_cons, ih, get?_addEntry parsed targets congr, List.contains_cons]
      by_cases here : (p == first) = true <;> by_cases later : rest.contains p = true <;>
        cases targetsOf? parsed targets p <;> simp [here, later]
  rw [edges_eq_foldl, aux []]
  simp [PathMap.get?]

theorem targetsOf?_absent {paths : List Path} {p : Path}
    (absent : paths.contains p = false ∨
      ∀ f, parsed.get? p = some f → f.path.isAbsolute = false) :
    (if paths.contains p then targetsOf? parsed targets p else none) = none := by
  rcases absent with unlisted | relative
  · simp only [unlisted, Bool.false_eq_true, if_false]
  · cases read : parsed.get? p with
    | none => simp [targetsOf?, read]
    | some f => simp [targetsOf?, read, relative f read]

theorem targetsOf?_of_contains {p mixin : Path} {f : SourceFile} (read : parsed.get? p = some f)
    (absolute : f.path.isAbsolute = true) (held : (targets p f).contains mixin = true) :
    targetsOf? parsed targets p = some (targets p f) := by
  have filled : targets p f ≠ [] := by
    intro empty
    rw [empty] at held
    cases held
  rw [targetsOf?, read, Option.bind_some, if_pos ⟨absolute, filled⟩]

theorem targetsOf?_isEntry {mixins : List Path} {used : Path → Prop} {p : Path} {f : SourceFile}
    (read : parsed.get? p = some f) (absolute : f.path.isAbsolute = true)
    (lists : Lists mixins used (targets p f)) :
    IsEntry mixins used (targetsOf? parsed targets p) := by
  by_cases empty : targets p f = []
  · -- No entry means that no listed mixin is used, or the targets would hold it.
    have nothing : targetsOf? parsed targets p = none := by simp [targetsOf?, read, empty]
    rw [nothing]
    intro mixin listed uses
    have held := (lists mixin).mpr ⟨mixin, listed, BEq.rfl, uses⟩
    rw [empty] at held
    cases held
  · have reached : targetsOf? parsed targets p = some (targets p f) := by
      simp [targetsOf?, read, absolute, empty]
    rw [reached]
    exact ⟨empty, lists⟩

end Edges

end Context

structure DeclaredUsage (ctx : Context) (d : Disk) (models mixins : List Path)
    (parsed : PathMap SourceFile) (graph : UsageGraph) (warnings : List Diagnostic) : Prop where
  modelEntry : ∀ p f, models.contains p = true → parsed.get? p = some f →
    f.path.isAbsolute = true →
      IsEntry mixins (fun mixin => ImportsMixin ctx d f mixin ∨ NamesMixin ctx f mixin)
        (PathMap.get? graph.modelToMixins p)
  mixinEntry : ∀ p f, mixins.contains p = true → parsed.get? p = some f →
    f.path.isAbsolute = true →
      IsEntry mixins (fun mixin => (mixin == p) = false ∧ ImportsMixin ctx d f mixin)
        (PathMap.get? graph.mixinDependencies p)
  noModelEntry : ∀ p, (models.contains p = false ∨
      ∀ f, parsed.get? p = some f → f.path.isAbsolute = false) →
    PathMap.get? graph.modelToMixins p = none
  noMixinEntry : ∀ p, (mixins.contains p = false ∨
      ∀ f, parsed.get? p = some f → f.path.isAbsolute = false) →
    PathMap.get? graph.mixinDependencies p = none
  warned : List.Forall₂
    (fun p warning => ∃ message,
      warning = Diagnostic.warning (ctx.display p) .extract "MIG-EXT-002" message)
    ((models ++ mixins).filter fun p => (parsed.get? p).any fun f => !f.path.isAbsolute) warnings
  connected : ∀ p, graph.connected.contains p = true ↔
    ∃ start, (∃ entry ∈ graph.modelToMixins, entry.2.contains start = true) ∧
      Relation.ReflTransGen (Dependencies.Leads graph.mixinDependencies) start p
  connectedListed : ∀ p, graph.connected.contains p = true → mixins.contains p = true
  parted : ∃ unconnected : List Path,
    (GraphSummary.ofGraph ctx graph mixins).connectedMixins = graph.connected.map ctx.display ∧
    (GraphSummary.ofGraph ctx graph mixins).unconnectedMixins = unconnected.map ctx.display ∧
    (∀ p, mixins.contains p = true ↔
      graph.connected.contains p = true ∨ unconnected.contains p = true) ∧
    ∀ p, ¬(graph.connected.contains p = true ∧ unconnected.contains p = true)

namespace Context

section Usage

variable (ctx : Context) (d : Disk) (models mixins : List Path) (parsed : PathMap SourceFile)

theorem get?_modelToMixins (p : Path) :
    PathMap.get? (ctx.usage d models mixins parsed).1.modelToMixins p =
      if models.contains p then targetsOf? parsed (fun _ => ctx.modelTargets d mixins) p
      else none := by
  rw [← get?_edges parsed (fun _ => ctx.modelTargets d mixins) (fun _ _ _ _ => rfl) models p]
  exact PathMap.get?_sorted (edges_distinct parsed _ models) p

theorem get?_mixinDependencies (p : Path) :
    PathMap.get? (ctx.usage d models mixins parsed).1.mixinDependencies p =
      if mixins.contains p then targetsOf? parsed (ctx.mixinTargets d mixins) p else none := by
  rw [← get?_edges parsed (ctx.mixinTargets d mixins)
    (fun _ _ f same => ctx.mixinTargets_congr d mixins same f) mixins p]
  exact PathMap.get?_sorted (edges_distinct parsed _ mixins) p

theorem contains_connected (p : Path) :
    (ctx.usage d models mixins parsed).1.connected.contains p = true ↔
      ∃ start, (∃ entry ∈ (ctx.usage d models mixins parsed).1.modelToMixins,
          entry.2.contains start = true) ∧
        Relation.ReflTransGen
          (Dependencies.Leads (ctx.usage d models mixins parsed).1.mixinDependencies) start p := by
  let used := edges parsed (fun _ => ctx.modelTargets d mixins) models
  let deps := edges parsed (ctx.mixinTargets d mixins) mixins
  -- A graph is kept in order, but neither its seeds nor its edges depend on that.
  have seeds (start : Path) : (used.flatMap Prod.snd).contains start = true ↔
      ∃ entry ∈ used.sorted, entry.2.contains start = true := by
    have order : used.sorted.Perm used := List.mergeSort_perm _ _
    simp only [List.contains_iff_exists_mem_beq, List.mem_flatMap, order.mem_iff]
    constructor
    · rintro ⟨target, ⟨entry, member, inside⟩, same⟩
      exact ⟨entry, member, target, inside, same⟩
    · rintro ⟨entry, member, target, inside, same⟩
      exact ⟨target, ⟨entry, member, inside⟩, same⟩
  have leads : Dependencies.Leads deps.sorted = Dependencies.Leads deps := by
    funext p q
    rw [Dependencies.Leads, Dependencies.Leads, Dependencies.targets, Dependencies.targets,
      PathMap.get?_sorted (edges_distinct parsed _ mixins)]
  change (deps.close (used.flatMap Prod.snd)).contains p = true ↔
    ∃ start, (∃ entry ∈ used.sorted, entry.2.contains start = true) ∧
      Relation.ReflTransGen (Dependencies.Leads deps.sorted) start p
  rw [Dependencies.contains_close, Dependencies.Reachable, leads]
  simp only [seeds]

theorem targetsOf?_listed {targets : Path → SourceFile → List Path}
    {used : SourceFile → Path → Prop} {p target : Path} {reached : List Path}
    (lists : ∀ f, Lists mixins (used f) (targets p f))
    (entry : targetsOf? parsed targets p = some reached) (held : reached.contains target = true) :
    mixins.contains target = true := by
  obtain ⟨f, _, chosen⟩ := Option.bind_eq_some_iff.mp entry
  split at chosen
  · cases chosen
    obtain ⟨mixin, listed, same, _⟩ := (lists f target).mp held
    exact List.contains_iff_exists_mem_beq.mpr ⟨mixin, listed, same⟩
  · cases chosen

theorem connected_listed (p : Path)
    (held : (ctx.usage d models mixins parsed).1.connected.contains p = true) :
    mixins.contains p = true := by
  obtain ⟨start, ⟨⟨model, targets⟩, member, inside⟩, path⟩ :=
    (contains_connected ctx d models mixins parsed p).mp held
  induction path with
  | refl =>
    have distinct : PathMap.Distinct (ctx.usage d models mixins parsed).1.modelToMixins :=
      PathMap.sorted_distinct (edges_distinct parsed _ models)
    have found := (PathMap.get?_eq_some_iff distinct).mpr ⟨model, member, BEq.rfl⟩
    rw [get?_modelToMixins] at found
    split at found
    · exact targetsOf?_listed mixins parsed (fun f => ctx.contains_modelTargets d mixins f) found
        inside
    · cases found
  | @tail source target _ leads _ =>
    -- Only the last edge counts: whatever it starts from, it ends at a listed mixin.
    rw [Dependencies.Leads, Dependencies.targets, get?_mixinDependencies] at leads
    split at leads
    · cases found : targetsOf? parsed (ctx.mixinTargets d mixins) source with
      | none =>
        rw [found] at leads
        cases leads
      | some reached =>
        rw [found] at leads
        exact targetsOf?_listed mixins parsed (fun f => ctx.contains_mixinTargets d mixins source f)
          found leads
    · cases leads

variable {models mixins parsed} in
theorem exists_modelEntry {p mixin : Path} {f : SourceFile} (model : models.contains p = true)
    (read : parsed.get? p = some f) (absolute : f.path.isAbsolute = true) (listed : mixin ∈ mixins)
    (uses : ImportsMixin ctx d f mixin ∨ NamesMixin ctx f mixin) :
    ∃ targets, PathMap.get? (ctx.usage d models mixins parsed).1.modelToMixins p = some targets ∧
      targets.contains mixin = true := by
  have held : (ctx.modelTargets d mixins f).contains mixin = true :=
    (ctx.contains_modelTargets d mixins f mixin).mpr ⟨mixin, listed, BEq.rfl, uses⟩
  refine ⟨_, ?_, held⟩
  rw [get?_modelToMixins, if_pos model]
  exact targetsOf?_of_contains parsed _ read absolute held

variable {models mixins parsed} in
theorem connected_of_model {p mixin : Path} {f : SourceFile} (model : models.contains p = true)
    (read : parsed.get? p = some f) (absolute : f.path.isAbsolute = true) (listed : mixin ∈ mixins)
    (uses : ImportsMixin ctx d f mixin ∨ NamesMixin ctx f mixin) :
    (ctx.usage d models mixins parsed).1.connected.contains mixin = true := by
  obtain ⟨targets, entry, held⟩ := exists_modelEntry ctx d model read absolute listed uses
  obtain ⟨key, member, -⟩ :=
    (PathMap.get?_eq_some_iff (PathMap.sorted_distinct (edges_distinct parsed _ models))).mp entry
  exact (contains_connected ctx d models mixins parsed mixin).mpr
    ⟨mixin, ⟨_, member, held⟩, .refl⟩

variable {models mixins parsed} in
theorem connected_of_mixin {p mixin : Path} {f : SourceFile} (own : mixins.contains p = true)
    (used : (ctx.usage d models mixins parsed).1.connected.contains p = true)
    (read : parsed.get? p = some f) (absolute : f.path.isAbsolute = true) (listed : mixin ∈ mixins)
    (imports : ImportsMixin ctx d f mixin) :
    (ctx.usage d models mixins parsed).1.connected.contains mixin = true := by
  by_cases same : (mixin == p) = true
  · rwa [List.contains_congr same]
  · have held : (ctx.mixinTargets d mixins p f).contains mixin = true :=
      (ctx.contains_mixinTargets d mixins p f mixin).mpr
        ⟨mixin, listed, BEq.rfl, by simpa using same, imports⟩
    have entry : PathMap.get? (ctx.usage d models mixins parsed).1.mixinDependencies p =
        some (ctx.mixinTargets d mixins p f) := by
      rw [get?_mixinDependencies, if_pos own]
      exact targetsOf?_of_contains parsed _ read absolute held
    obtain ⟨start, seed, path⟩ := (contains_connected ctx d models mixins parsed p).mp used
    refine (contains_connected ctx d models mixins parsed mixin).mpr ⟨start, seed, path.tail ?_⟩
    rw [Dependencies.Leads, Dependencies.targets, entry]
    exact held

theorem edgeWarnings_listed (paths : List Path) :
    List.Forall₂
      (fun p warning => ∃ message,
        warning = Diagnostic.warning (ctx.display p) .extract "MIG-EXT-002" message)
      (paths.filter fun p => (parsed.get? p).any fun f => !f.path.isAbsolute)
      (ctx.edgeWarnings parsed paths) := by
  induction paths with
  | nil => exact .nil
  | cons p rest ih =>
    cases read : parsed.get? p with
    | none => simpa [edgeWarnings, read] using ih
    | some f =>
      by_cases absolute : f.path.isAbsolute = true
      · simpa [edgeWarnings, read, absolute] using ih
      · simpa [edgeWarnings, read, absolute, relativePathWarning, edgeExtraction] using ih

theorem usage_declared :
    DeclaredUsage ctx d models mixins parsed (ctx.usage d models mixins parsed).1
      (ctx.usage d models mixins parsed).2 where
  modelEntry p f listed read absolute := by
    rw [get?_modelToMixins, if_pos listed]
    exact targetsOf?_isEntry parsed _ read absolute (ctx.contains_modelTargets d mixins f)
  mixinEntry p f listed read absolute := by
    rw [get?_mixinDependencies, if_pos listed]
    exact targetsOf?_isEntry parsed _ read absolute (ctx.contains_mixinTargets d mixins p f)
  noModelEntry p absent := by
    rw [get?_modelToMixins]
    exact targetsOf?_absent parsed _ absent
  noMixinEntry p absent := by
    rw [get?_mixinDependencies]
    exact targetsOf?_absent parsed _ absent
  warned := by
    rw [List.filter_append]
    exact List.rel_append (edgeWarnings_listed ctx parsed models)
      (edgeWarnings_listed ctx parsed mixins)
  connected := contains_connected ctx d models mixins parsed
  connectedListed := connected_listed ctx d models mixins parsed
  parted := by
    let connected := (ctx.usage d models mixins parsed).1.connected
    have outside (p : Path) : (mixins.filter fun m => !connected.contains m).contains p =
        (mixins.contains p && !connected.contains p) :=
      Path.contains_filter (fun _ _ same => by rw [List.contains_congr same]) mixins p
    refine ⟨mixins.filter fun m => !connected.contains m, rfl, rfl, ?_, ?_⟩
    · intro p
      rw [outside, Bool.and_eq_true]
      have listed := connected_listed ctx d models mixins parsed p
      by_cases held : connected.contains p = true
      · simp [held, listed held, connected]
      · simp [held, connected]
    · rintro p ⟨held, apart⟩
      rw [outside, held] at apart
      simp at apart

end Usage

end Context

end SchemaMigration
