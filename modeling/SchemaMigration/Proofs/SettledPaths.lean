import Mathlib.Data.List.TakeDrop
import SchemaMigration.Proofs.CanonicalPaths
import SchemaMigration.Proofs.LexicalPaths
import SchemaMigration.Proofs.PathPieces

set_option autoImplicit false

namespace SchemaMigration

namespace Path

structure IsSettled (p : Path) : Prop where
  absolute : p.isAbsolute = true
  down : Component.parent ∉ p.steps

theorem steps_of_components_root {p : Path} {below : List Component}
    (rooted : p.components = .root :: below) : p.steps = below := by
  rw [components_of_absolute (isAbsolute_of_components_root rooted)] at rooted
  exact (List.cons.inj rooted).2

theorem isSettled_of_components {p : Path} {names : List Component}
    (named : ∀ step ∈ names, step.IsName) (rooted : p.components = .root :: names) :
    p.IsSettled := by
  refine ⟨isAbsolute_of_components_root rooted, ?_⟩
  rw [steps_of_components_root rooted]
  exact notMem_names named (by simp)

theorem isSettled_normalize {p : Path} (absolute : p.isAbsolute = true) :
    p.normalize.IsSettled := by
  obtain ⟨names, named, -, written⟩ := components_normalize absolute
  exact isSettled_of_components (fun step member => (named step member).1) written

theorem IsCanonical.isSettled {p : Path} (canonical : p.IsCanonical) : p.IsSettled := by
  obtain ⟨place, proper, rfl⟩ := canonical
  refine isSettled_of_components ?_ (Disk.components_pathOf proper)
  intro step member
  obtain ⟨name, -, rfl⟩ := List.mem_map.mp member
  exact ⟨name, rfl⟩

namespace IsSettled

variable {p q : Path}

theorem names (settled : p.IsSettled) : ∀ step ∈ p.steps, step.IsName := by
  intro step member
  refine isName_of_mem_steps member ?_
  rintro rfl
  exact settled.down member

theorem normalize_beq (settled : p.IsSettled) : (p.normalize == p) = true := by
  have kept : normalSteps (.root :: p.steps) = .root :: p.steps :=
    normalSteps_append true 0 settled.names
  rw [beq_iff_components, normalize, components_of_absolute settled.absolute, kept,
    components_ofComponents_root fun step => steps_proper]

theorem join (settled : p.IsSettled) (down : Component.parent ∉ q.steps) :
    (p.join q).IsSettled := by
  by_cases absolute : q.isAbsolute = true
  · rw [Path.join, if_pos absolute]
    exact ⟨absolute, down⟩
  · have relative : q.isAbsolute = false := by simpa using absolute
    refine ⟨(isAbsolute_join relative).trans settled.absolute, ?_⟩
    rw [steps_join relative, List.mem_append, not_or]
    exact ⟨settled.down, down⟩

theorem join_name (settled : p.IsSettled) {file : String}
    (proper : Component.Proper (.name file)) : (p.join ⟨file⟩).IsSettled := by
  apply settled.join
  have read := steps_text proper
  rw [Component.text] at read
  simp [read]

end IsSettled

theorem parent_notMem_below? {p base below : Path} (found : p.below? base = some below)
    (down : Component.parent ∉ p.steps) : Component.parent ∉ below.steps := by
  obtain ⟨n, read⟩ := steps_below? found
  rw [read]
  exact fun up => down (List.mem_of_mem_drop up)

theorem steps_ofPiecesReversed_subset {p : Path} {backwards : List (List Char)}
    (pieces : ∀ piece ∈ backwards, piece = [] ∨ piece ∈ p.pieces) (absolute : Bool) :
    (ofPiecesReversed absolute backwards).steps ⊆ p.steps := by
  have noSlash : ∀ piece ∈ backwards, '/' ∉ piece := by
    intro piece member
    rcases pieces piece member with rfl | own
    · simp
    · exact noSlash_pieces piece own
  intro step taken
  rw [steps_ofPiecesReversed noSlash] at taken
  obtain ⟨piece, member, read⟩ := List.mem_filterMap.mp taken
  rcases pieces piece (List.mem_reverse.mp member) with rfl | own
  · cases read
  · exact List.mem_filterMap.mpr ⟨piece, own, read⟩

theorem steps_parent?_subset {p directory : Path} (above : p.parent? = some directory) :
    directory.steps ⊆ p.steps := by
  have whole := dropNoSteps_suffix p.pieces.reverse
  rw [parent?] at above
  split at above
  next => cases above
  next last before dropped =>
    obtain rfl := Option.some.inj above
    apply steps_ofPiecesReversed_subset
    intro piece member
    dsimp only at member
    split at member
    next => exact .inl (List.mem_singleton.mp member)
    next =>
      rw [dropped] at whole
      have kept := (dropNoSteps_suffix before).subset member
      exact .inr (List.mem_reverse.mp (whole.subset (List.mem_cons_of_mem last kept)))

theorem splitExtension_append_dot {before extension : List Char} (filled : before ≠ [])
    (plain : '.' ∉ extension) :
    splitExtension (before ++ '.' :: extension) = (before, some extension) := by
  have own : ∀ c ∈ extension.reverse, (c != '.') = true := by
    intro c member
    simpa using fun dot : c = '.' => plain (by simpa [dot] using member)
  obtain ⟨last, others, backwards⟩ := List.exists_cons_of_ne_nil (by simpa using filled :
    before.reverse ≠ [])
  have spanned : (before ++ '.' :: extension).reverse.span (· != '.') =
      (extension.reverse, '.' :: last :: others) := by
    rw [List.span_eq_takeWhile_dropWhile]
    simp [List.takeWhile_append_of_pos own, List.dropWhile_append_of_pos own, backwards]
  rw [splitExtension, spanned]
  simp [← backwards]

theorem IsSettled.withoutExtension {p : Path} (settled : p.IsSettled) {before extension : String}
    (named : p.fileName? = some (before ++ ("." ++ extension)))
    (proper : Component.Proper (.name before)) (plain : '.' ∉ extension.toList) :
    p.withoutExtension.IsSettled := by
  refine ⟨isAbsolute_withoutExtension settled.absolute, ?_⟩
  have cut : splitExtension (before ++ ("." ++ extension)).toList =
      (before.toList, some extension.toList) := by
    have filled : before.toList ≠ [] := proper.text_ne [] rfl
    simpa [String.toList_append] using splitExtension_append_dot filled plain
  have whole := dropNoSteps_suffix p.pieces.reverse
  rw [Path.withoutExtension]
  split
  next last kept name dropped found =>
    obtain rfl := Option.some.inj (found.symm.trans named)
    rw [dropped] at whole
    have pieces : ∀ piece ∈ kept, piece ∈ p.pieces := fun piece member =>
      List.mem_reverse.mp (whole.subset (List.mem_cons_of_mem last member))
    have noSlash : ∀ piece ∈ before.toList :: kept, '/' ∉ piece :=
      List.forall_mem_cons.mpr
        ⟨proper.1, fun piece member => noSlash_pieces piece (pieces piece member)⟩
    rw [cut, steps_ofPiecesReversed noSlash]
    intro up
    obtain ⟨piece, member, read⟩ := List.mem_filterMap.mp up
    rcases List.mem_cons.mp (List.mem_reverse.mp member) with rfl | own
    · cases proper.2.symm.trans read
    · exact settled.down (List.mem_filterMap.mpr ⟨piece, pieces piece own, read⟩)
  next => exact settled.down

end Path

end SchemaMigration
