import SchemaMigration.Proofs.LexicalPaths
import SchemaMigration.Specifier.Relocation

set_option autoImplicit false

namespace SchemaMigration

theorem isAbsolute_of_isRelativeSpecifier {specifier : String}
    (relative : isRelativeSpecifier specifier = true) :
    Path.isAbsolute ⟨specifier⟩ = false := by
  simp only [isRelativeSpecifier, Bool.or_eq_true, beq_iff_eq, List.isPrefixOf_iff_prefix]
    at relative
  rcases relative with ((rfl | rfl) | ⟨rest, written⟩) | ⟨rest, written⟩
  · rfl
  · rfl
  · simp [Path.isAbsolute, ← written]
  · simp [Path.isAbsolute, ← written]

theorem relocate_eq_geometric {mappings : List ImportMapping} {specifier : String}
    {source target sourceDirectory targetDirectory : Path}
    (sourceParent : source.parent? = some sourceDirectory)
    (targetParent : target.parent? = some targetDirectory)
    (relative : isRelativeSpecifier specifier = true)
    (unmapped : ∀ m ∈ mappings, m.relocate? specifier source = none) :
    relocate mappings specifier (some source) (some target) =
      (((sourceDirectory.join ⟨specifier⟩).normalize.relativeTo targetDirectory).toSpecifier,
        .geometric) := by
  have none : mappings.findSome? (·.relocate? specifier source) = none :=
    List.findSome?_eq_none_iff.mpr unmapped
  simp [relocate, relative, none, geometricSpecifier?, sourceParent, targetParent]

theorem relocate_keeps_target (mappings : List ImportMapping) (specifier : String)
    {source target sourceDirectory targetDirectory : Path}
    (sourceAbsolute : source.isAbsolute = true) (targetAbsolute : target.isAbsolute = true)
    (sourceParent : source.parent? = some sourceDirectory)
    (targetParent : target.parent? = some targetDirectory)
    (relative : isRelativeSpecifier specifier = true)
    (unmapped : ∀ m ∈ mappings, m.relocate? specifier source = none) :
    ∃ rewritten, relocate mappings specifier (some source) (some target) = (rewritten, .geometric) ∧
      isRelativeSpecifier rewritten = true ∧
      (targetDirectory.join ⟨rewritten⟩).normalize =
        (sourceDirectory.join ⟨specifier⟩).normalize := by
  refine ⟨_, relocate_eq_geometric sourceParent targetParent relative unmapped, ?_⟩
  have denotedAbsolute : (sourceDirectory.join ⟨specifier⟩).isAbsolute = true :=
    (Path.isAbsolute_join (isAbsolute_of_isRelativeSpecifier relative)).trans
      (Path.isAbsolute_parent? sourceAbsolute sourceParent)
  have kept := Path.normalize_join_relativeTo (Path.isAbsolute_parent? targetAbsolute targetParent)
    (Path.isAbsolute_normalize denotedAbsolute)
  rw [Path.normalize_normalize denotedAbsolute] at kept
  exact kept

theorem relocate_keeps_target_above_mapping :
    ∃ rewritten, relocate [⟨"app/core", "my-lib/core"⟩] "../.././../outside"
        (some ⟨"/p/app/core/button.js"⟩) (some ⟨"/p/app//data/x/../button.ext.js"⟩) =
      (rewritten, .geometric) ∧ isRelativeSpecifier rewritten = true ∧
      ((⟨"/p/app//data/x/.."⟩ : Path).join ⟨rewritten⟩).normalize =
        ((⟨"/p/app/core"⟩ : Path).join ⟨"../.././../outside"⟩).normalize :=
  relocate_keeps_target _ _ rfl rfl rfl rfl rfl (by decide)

end SchemaMigration
