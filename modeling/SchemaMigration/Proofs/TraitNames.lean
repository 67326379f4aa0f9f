import SchemaMigration.Proofs.DashedNames
import SchemaMigration.Proofs.PathPieces
import SchemaMigration.Proofs.UsageGraph

set_option autoImplicit false

namespace SchemaMigration

open Naming

section DashedNames

variable {parts : List (List Char)} {text : List Char}

theorem splitOn_intercalate (filled : parts ≠ []) :
    (['/'].intercalate parts).splitOn '/' = parts.flatMap (·.splitOn '/') := by
  induction parts with
  | nil => exact absurd rfl filled
  | cons part rest ih =>
    by_cases empty : rest = []
    next => simp [empty]
    next =>
      rw [List.intercalate_cons_of_ne_nil empty, List.append_assoc, List.singleton_append,
        List.splitOn_append_cons_self, ih empty, List.flatMap_cons]

-- Each step of a name is left as it is by dashing it.
def IsDashedName (text : List Char) : Prop :=
  ∀ piece ∈ text.splitOn '/', dashChars piece = piece

instance (text : List Char) : Decidable (IsDashedName text) :=
  inferInstanceAs (Decidable (∀ piece ∈ text.splitOn '/', dashChars piece = piece))

theorem isDashedName_intercalate (dashed : ∀ part ∈ parts, IsDashedName part) :
    IsDashedName (['/'].intercalate parts) := by
  by_cases empty : parts = []
  next =>
    subst empty
    decide
  next =>
    intro piece member
    rw [splitOn_intercalate empty] at member
    obtain ⟨part, listed, inside⟩ := List.mem_flatMap.mp member
    exact dashed part listed piece inside

theorem isDashedName_dashChars (lowers : LowersFully text) (noSlash : '/' ∉ text) :
    IsDashedName (dashChars text) := by
  have whole : (dashChars text).splitOn '/' = [dashChars text] :=
    List.splitOn_eq_singleton fun slash => noSlash (slash_of_mem_dashChars slash)
  intro piece member
  rw [whole, List.mem_singleton] at member
  rw [member, dashChars_dashChars lowers]

def HasSolidEnds (name : String) : Prop :=
  name.toList.head?.any Character.isBlank = false ∧
    name.toList.getLast?.any Character.isBlank = false

instance (name : String) : Decidable (HasSolidEnds name) :=
  inferInstanceAs (Decidable (_ ∧ _))

theorem dropWhile_isBlank (solid : text.head?.any Character.isBlank = false) :
    text.dropWhile Character.isBlank = text := by
  cases text with
  | nil => rfl
  | cons c rest =>
    have first : Character.isBlank c = false := solid
    simp [first]

theorem normalTypeName_of_isDashedName {name : String} (dashed : IsDashedName name.toList)
    (solid : HasSolidEnds name) : normalTypeName name = name := by
  have trimmed : Character.trim name.toList = name.toList := by
    have turned : name.toList.reverse.head?.any Character.isBlank = false := by
      rw [List.head?_reverse]
      exact solid.2
    rw [Character.trim, dropWhile_isBlank solid.1, dropWhile_isBlank turned, List.reverse_reverse]
  have kept : (name.toList.splitOn '/').map (fun step => dasherize (String.ofList step)) =
      (name.toList.splitOn '/').map String.ofList := by
    apply List.map_congr_left
    intro piece member
    rw [dasherize, String.toList_ofList, dashed piece member]
  rw [normalTypeName, trimmed, kept, ← String.toList_inj, String.toList_intercalate]
  simp [Function.comp_def]

end DashedNames

namespace Path

theorem subset_intercalate {parts : List (List Char)} {part : List Char} (member : part ∈ parts) :
    part ⊆ ['/'].intercalate parts := by
  induction parts with
  | nil => cases member
  | cons first rest ih =>
    by_cases empty : rest = []
    next =>
      subst empty
      rw [List.mem_singleton.mp member, List.intercalate_singleton]
      exact List.Subset.refl first
    next =>
      rw [List.intercalate_cons_of_ne_nil empty]
      rcases List.mem_cons.mp member with rfl | later
      next => simp
      next => exact List.subset_append_of_subset_right _ (ih later)

theorem mem_text_of_mem_steps {p : Path} {text : String} (member : .name text ∈ p.steps) :
    text.toList ⊆ p.text.toList := by
  obtain ⟨piece, inside, read⟩ := List.mem_filterMap.mp member
  rcases Component.ofPiece?_cases piece with ⟨-, none⟩ | ⟨-, up⟩ | ⟨-, named⟩
  next => simp [none] at read
  next => simp [up] at read
  next =>
    rw [named, Option.some_inj, Component.name.injEq] at read
    rw [← read, String.toList_ofList]
    have written := subset_intercalate inside
    rwa [List.intercalate_splitOn] at written

theorem isDashedName_dasherized {p : Path}
    (lowers : ∀ text, .name text ∈ p.steps → LowersFully text.toList) :
    IsDashedName p.dasherized.toList := by
  have written : p.dasherized.toList =
      ['/'].intercalate (p.components.map fun step => dashChars step.text.toList) := by
    simp [dasherized, dasherize, String.toList_intercalate, Function.comp_def]
  rw [written]
  apply isDashedName_intercalate
  intro part member
  obtain ⟨step, listed, rfl⟩ := List.mem_map.mp member
  cases step with
  | root | current | parent => decide +kernel
  | name text =>
    have below := mem_steps_of_name listed
    exact isDashedName_dashChars (lowers text below) (steps_proper below).1

theorem mem_of_foldl {choose : Option Path → Path → Option Path}
    (chooses : ∀ best d x, choose best d = some x → best = some x ∨ x = d)
    {directories : List Path} {best : Option Path} {x : Path}
    (found : directories.foldl choose best = some x) : best = some x ∨ x ∈ directories := by
  induction directories generalizing best with
  | nil => exact .inl found
  | cons d rest ih =>
    rcases ih found with chosen | later
    next =>
      rcases chooses best d x chosen with old | rfl
      next => exact .inl old
      next => exact .inr List.mem_cons_self
    next => exact .inr (List.mem_cons_of_mem d later)

theorem mem_of_deepest? {directories : List Path} {d : Path}
    (deepest : deepest? directories = some d) : d ∈ directories := by
  refine (mem_of_foldl ?_ deepest).resolve_left (by simp)
  intro best d x chosen
  cases best with
  | none => exact .inr (Option.some.inj chosen).symm
  | some b =>
    dsimp only at chosen
    split at chosen
    next => exact .inr (Option.some.inj chosen).symm
    next => exact .inl chosen

end Path

variable {mixin : Path} {extensions : List String}

theorem entityName_cases (p : Path) (roots : List Path) (extensions : List String) :
    (∃ root ∈ roots, ∃ below, (p.stripExtension extensions).below? root = some below ∧
        below.dasherized.isEmpty = false ∧ entityName p roots extensions = below.dasherized) ∨
      entityName p roots extensions = entityName.bareName (p.stripExtension extensions) := by
  rw [entityName]
  split
  next name nested =>
    split
    next => exact .inr rfl
    next filled =>
      obtain ⟨root, deepest, named⟩ := Option.bind_eq_some_iff.mp nested
      obtain ⟨below, found, rfl⟩ := Option.map_eq_some_iff.mp named
      have listed := (List.mem_filter.mp (Path.mem_of_deepest? deepest)).1
      exact .inl ⟨root, listed, below, found, by simpa using filled, rfl⟩
  next => exact .inr rfl

theorem entityName_mem_mixinNames (roots : List Path)
    (named : (mixin.stripExtension extensions).fileName?.isSome = true) :
    entityName mixin roots extensions ∈ mixinNames mixin roots extensions := by
  rw [mixinNames, List.mem_append]
  rcases entityName_cases mixin roots extensions with
    ⟨root, listed, below, found, filled, nested⟩ | bare
  next =>
    rw [nested]
    refine .inr (List.mem_filter.mpr ⟨List.mem_filterMap.mpr ⟨root, listed, ?_⟩, by simp [filled]⟩)
    rw [found, Option.map_some]
  next =>
    obtain ⟨file, last⟩ := Option.isSome_iff_exists.mp named
    exact .inl (by simp [bare, entityName.bareName, last])

theorem isDashedName_entityName (roots : List Path)
    (lowers : LowersFully (mixin.stripExtension extensions).text.toList) :
    IsDashedName (entityName mixin roots extensions).toList := by
  have step {text : String} (member : .name text ∈ (mixin.stripExtension extensions).steps) :
      LowersFully text.toList :=
    fun c inside => lowers c (Path.mem_text_of_mem_steps member inside)
  rcases entityName_cases mixin roots extensions with ⟨root, -, below, found, -, nested⟩ | bare
  next =>
    rw [nested]
    obtain ⟨n, rest⟩ := Path.steps_below? found
    apply Path.isDashedName_dasherized
    intro text member
    rw [rest] at member
    exact step (List.mem_of_mem_drop member)
  next =>
    rw [bare, entityName.bareName]
    cases last : (mixin.stripExtension extensions).fileName? with
    | none => decide
    | some file =>
      have member := List.mem_of_getLast? (Path.fileName?_eq_some_iff.mp last)
      have dashed := isDashedName_dashChars (step member) (Path.steps_proper member).1
      simpa [dasherize] using dashed

theorem traitName_reaches_mixin (roots : List Path) (extensions : List String) (mixin : Path)
    (named : (mixin.stripExtension extensions).fileName?.isSome = true)
    (lowers : LowersFully (mixin.stripExtension extensions).text.toList) :
    entityName mixin roots extensions ∈ mixinNames mixin roots extensions ∧
      (HasSolidEnds (entityName mixin roots extensions) →
        normalTypeName (entityName mixin roots extensions) = entityName mixin roots extensions ∧
          ∀ (ctx : Context) (d : Disk) (models mixins : List Path) (parsed : PathMap SourceFile)
            (model : Path) (f : SourceFile) (field : Field),
            ctx.mixins.roots = roots → ctx.extensions = extensions → mixin ∈ mixins →
            models.contains model = true → parsed.get? model = some f →
            f.path.isAbsolute = true → field ∈ f.fields → field.kind = .belongsTo →
            field.options.get? "polymorphic" = some (.bool true) →
            field.type? = some (entityName mixin roots extensions) →
            ∃ targets,
              PathMap.get? (ctx.usage d models mixins parsed).1.modelToMixins model =
                  some targets ∧
                targets.contains mixin = true) := by
  have member := entityName_mem_mixinNames roots named
  refine ⟨member, fun solid => ?_⟩
  have normal := normalTypeName_of_isDashedName (isDashedName_entityName roots lowers) solid
  refine ⟨normal, ?_⟩
  rintro ctx d models mixins parsed model f field rfl rfl listed known read absolute declared
    kind polymorphic type
  have names : NamesMixin ctx f mixin :=
    ⟨field, declared, kind, polymorphic, _, type, by rwa [normal]⟩
  exact ctx.exists_modelEntry d known read absolute listed (.inr names)

def loggedMixin : Path := ⟨"/app/mixins/Admin/HTTPLog_entry.js"⟩

def loggingContext : Context where
  projectRoot := ⟨"/app"⟩
  extensions := [".js"]
  models := ⟨none, none, [], [⟨"/app/models"⟩]⟩
  mixins := ⟨none, none, [], [⟨"/app/mixins"⟩, ⟨"/app"⟩]⟩
  output := {}
  importMappings := []
  intermediateModels := []
  exclude := []
  dryRun := false

def loggingModel : SourceFile where
  path := ⟨"/app/models/user.js"⟩
  language := .javaScript
  imports := []
  fields := [⟨.belongsTo, "log", some "admin/http-log-entry", ⟨[("polymorphic", .bool true)]⟩⟩]
  declaration := none
  behaviors := []
  retained := []
  warnings := []
  source := ""

theorem traitName_reaches_mixin_logged :
    entityName loggedMixin loggingContext.mixins.roots loggingContext.extensions =
        "admin/http-log-entry" ∧
      ∃ targets,
        PathMap.get? (loggingContext.usage .empty [loggingModel.path] [loggedMixin]
          [(loggingModel.path, loggingModel)]).1.modelToMixins loggingModel.path = some targets ∧
          targets.contains loggedMixin = true := by
  have name : entityName loggedMixin loggingContext.mixins.roots loggingContext.extensions =
      "admin/http-log-entry" := by decide +kernel
  have reaches := traitName_reaches_mixin loggingContext.mixins.roots loggingContext.extensions
    loggedMixin (by decide +kernel) (by decide +kernel)
  rw [name] at reaches
  refine ⟨name, (reaches.2 (by decide +kernel)).2 loggingContext .empty _ _ _ _ loggingModel _ rfl
    rfl List.mem_cons_self ?_ ?_ rfl List.mem_cons_self rfl rfl rfl⟩
  next => simp
  next => simp [PathMap.get?]

end SchemaMigration
