import SchemaMigration.Proofs.ConfiguredRoots
import SchemaMigration.Proofs.OutputPaths
import SchemaMigration.Proofs.SettledPaths

set_option autoImplicit false

namespace SchemaMigration

theorem Disk.isSettled_canonicalOrNormal {d : Disk} {p : Path}
    (start : Place.IsProper d.workingDirectory) (absolute : p.isAbsolute = true) :
    (d.canonicalOrNormal p).IsSettled := by
  rw [canonicalOrNormal, canonicalize]
  cases found : d.find p with
  | ok place => exact Path.IsCanonical.isSettled ⟨place, find_proper start found, rfl⟩
  | error fault => exact Path.isSettled_normalize absolute

namespace Context

variable {d : Disk} {config : Config} {ctx : Context}

theorem ofConfig_outputRoot (built : ofConfig d config = .ok ctx)
    (start : Place.IsProper d.workingDirectory) (kind : ArtifactKind) :
    (ctx.outputRoot kind.policy).IsSettled := by
  have configured := configured_of_ofConfig built
  have root : ctx.projectRoot.IsSettled := (configured.projectRoot_isCanonical start).isSettled
  have chosen (directory : Option Path) (default : String)
      (down : Component.parent ∉ Path.steps ⟨default⟩) :
      ((directory.map fun p => d.canonicalOrNormal (ctx.projectRoot.join p)).getD
        (ctx.projectRoot.join ⟨default⟩)).IsSettled := by
    cases directory with
    | none => exact root.join down
    | some p =>
      exact Disk.isSettled_canonicalOrNormal start (Path.isAbsolute_join_of_absolute root.absolute)
  rw [outputRoot, configured.output]
  cases kind <;> exact chosen _ _ (by decide +kernel)

variable {source : Path}

theorem placeBelowRoot?_down (settled : source.IsSettled) {below : Path}
    (found : ctx.placeBelowRoot? source = some below) : Component.parent ∉ below.steps := by
  simp only [placeBelowRoot?, Option.bind_eq_bind, Option.bind_eq_some_iff] at found
  obtain ⟨directory, above, root, -, inside⟩ := found
  exact Path.parent_notMem_below? inside fun up =>
    settled.down (Path.steps_parent?_subset above up)

variable (outputs : ∀ kind : ArtifactKind, (ctx.outputRoot kind.policy).IsSettled)

include outputs in
theorem isSettled_directory (settled : source.IsSettled) (kind : ArtifactKind) :
    (ctx.place kind "" source).directory.IsSettled := by
  simp only [place]
  split
  next below found =>
    split at found
    · exact (outputs kind).join (placeBelowRoot?_down settled found)
    · cases found
  next => exact outputs kind

end Context

namespace Emission

variable {ctx : Context} {x : Emission}
  (outputs : ∀ kind : ArtifactKind, (ctx.outputRoot kind.policy).IsSettled)

include outputs

theorem Placed.isAbsolute_directory (placed : x.Placed ctx) (settled : x.source.IsSettled) :
    x.artifact.directory.isAbsolute = true := by
  have absolute : x.artifact.path.isAbsolute = true := by
    rw [placed.path_eq]
    exact Path.isAbsolute_join_of_absolute
      (Context.isSettled_directory outputs settled _).absolute
  obtain ⟨directory, above⟩ :=
    Option.isSome_iff_exists.mp (Path.parent?_isSome (Path.steps_ne_nil placed.fileName?))
  rw [Artifact.directory, above]
  exact Path.isAbsolute_parent? absolute above

theorem Placed.isSettled_withoutExtension (placed : x.Placed ctx) (settled : x.source.IsSettled)
    (derived : x.artifact.kind ≠ .extensionType) :
    x.artifact.path.withoutExtension.IsSettled := by
  have noSlash : '/' ∉ (ctx.baseName x.role x.artifact.kind x.source).toList :=
    noSlash_baseName (.inr derived)
  have written : x.fileName ctx =
      ctx.baseName x.role x.artifact.kind x.source ++ x.artifact.kind.family ++
        ("." ++ x.artifact.kind.fileExtension x.source) := by
    rw [fileName, ArtifactKind.ending, String.append_assoc]
  have path : x.artifact.path.IsSettled := by
    have proper := placed.proper_append noSlash
    rw [← String.toList_append, String.ofList_toList] at proper
    rw [placed.path_eq]
    exact (Context.isSettled_directory outputs settled _).join_name proper
  have named : x.artifact.path.fileName? = some (x.fileName ctx) := by
    rw [Path.fileName?, placed.components noSlash]
    simp
  rw [written] at named
  refine path.withoutExtension named ?_ (x.artifact.kind.fileExtension_plain x.source).1
  apply Component.proper_name
  · have family : '/' ∉ x.artifact.kind.family.toList := by
      cases x.artifact.kind <;> decide
    simp [noSlash, family]
  · have long := ArtifactKind.two_lt_length_family placed.known
    rw [String.toList_append, List.length_append]
    omega

theorem Placed.specifier_leads {y : Emission} (placed : x.Placed ctx)
    (settled : x.source.IsSettled) (target : y.Placed ctx) (settled' : y.source.IsSettled)
    (derived : y.artifact.kind ≠ .extensionType) :
    ((x.artifact.directory.join
        ⟨specifierBetween x.artifact.path y.artifact.path⟩).normalize ==
      y.artifact.path.withoutExtension) = true := by
  have goal := target.isSettled_withoutExtension outputs settled' derived
  have way := (Path.normalize_join_relativeTo
    (placed.isAbsolute_directory outputs settled) goal.absolute).2
  rw [specifierBetween, ← Artifact.directory, way]
  exact goal.normalize_beq

end Emission

end SchemaMigration
