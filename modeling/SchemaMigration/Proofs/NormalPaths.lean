import SchemaMigration.Proofs.LexicalPaths
import SchemaMigration.Proofs.PathPieces

set_option autoImplicit false

namespace SchemaMigration

namespace Path

def foot (p : Path) : List Component :=
  if p.isAbsolute then [.root] else []

theorem foot_congr {p q : Path} (same : p.isAbsolute = q.isAbsolute) : p.foot = q.foot := by
  rw [foot, same, foot]

def reached (p : Path) : List Component :=
  p.steps.foldl takeStep p.foot

theorem normalSteps_components {p : Path} (relative : p.isAbsolute = false) :
    normalSteps p.components = normalSteps p.steps := by
  rw [components_eq, lead, relative, if_neg Bool.false_ne_true]
  split
  next => rfl
  next => rfl

theorem normalSteps_eq_reached (p : Path) : normalSteps p.components = p.reached.reverse := by
  by_cases absolute : p.isAbsolute = true
  next =>
    rw [components_of_absolute absolute, reached, foot, if_pos absolute]
    rfl
  next =>
    have relative : p.isAbsolute = false := by simpa using absolute
    rw [normalSteps_components relative, reached, foot, if_neg absolute, normalSteps]

theorem normalize_of_reached {p q : Path} (same : p.reached = q.reached) :
    p.normalize = q.normalize := by
  rw [normalize, normalSteps_eq_reached, same, ← normalSteps_eq_reached, normalize]

theorem reached_join {p q : Path} (relative : q.isAbsolute = false) :
    (p.join q).reached = q.steps.foldl takeStep p.reached := by
  rw [reached, steps_join relative, foot_congr (isAbsolute_join relative), List.foldl_append,
    reached]

section NormalForms

variable {absolute : Bool} {climbs : Nat} {names : List Component}

-- Steps in normal form: no `.`, and each `..` before all else and in a relative path.
structure IsNormalForm (absolute : Bool) (steps : List Component) : Prop where
  noDot : Component.current ∉ steps
  leading : ∃ climbs rest, steps = List.replicate climbs .parent ++ rest ∧ .parent ∉ rest
  relative : .parent ∈ steps → absolute = false

theorem isNormalForm_append (named : ∀ step ∈ names, step.IsName) :
    IsNormalForm absolute (normalStart absolute climbs ++ names) := by
  have noDot : Component.current ∉ names := notMem_names named (by simp)
  have down : Component.parent ∉ names := notMem_names named (by simp)
  cases absolute with
  | true =>
    have down' : Component.parent ∉ normalStart true climbs ++ names := by
      simpa [normalStart] using down
    exact ⟨by simpa [normalStart] using noDot, ⟨0, _, rfl, down'⟩, fun up => absurd up down'⟩
  | false =>
    refine ⟨?_, ⟨climbs, names, rfl, down⟩, fun _ => rfl⟩
    simp [normalStart, List.mem_replicate, noDot]

end NormalForms

section Paths

variable {p : Path}

theorem exists_of_isNormalForm (normal : IsNormalForm p.isAbsolute p.components) :
    ∃ climbs names, (∀ step ∈ names, step.IsName) ∧
      p.components = normalStart p.isAbsolute climbs ++ names := by
  cases absolute : p.isAbsolute with
  | true =>
    have down : Component.parent ∉ p.components := by
      intro up
      cases absolute.symm.trans (normal.relative up)
    rw [components_of_absolute absolute] at down ⊢
    refine ⟨0, p.steps, fun step member => isName_of_mem_steps member ?_, rfl⟩
    rintro rfl
    exact down (List.mem_cons_of_mem _ member)
  | false =>
    have own : p.components = p.steps := by
      have noDot := normal.noDot
      rw [components_eq] at noDot ⊢
      rw [lead, absolute, if_neg Bool.false_ne_true] at noDot ⊢
      split at noDot
      next => simp at noDot
      next plain => rw [if_neg plain, List.nil_append]
    obtain ⟨climbs, rest, written, down⟩ := normal.leading
    rw [own] at written ⊢
    refine ⟨climbs, rest, fun step member => isName_of_mem_steps (p := p) ?_ ?_, written⟩
    next => simp [written, member]
    next =>
      rintro rfl
      exact down member

theorem exists_normalSteps (p : Path) :
    ∃ climbs names, (∀ step ∈ names, step.IsName) ∧
      normalSteps p.components = normalStart p.isAbsolute climbs ++ names ∧
      p.normalize.components = normalSteps p.components ∧
      p.normalize.isAbsolute = p.isAbsolute := by
  cases absolute : p.isAbsolute with
  | true =>
    obtain ⟨names, named, normal, written⟩ := components_normalize absolute
    exact ⟨0, names, fun step member => (named step member).1, normal, written.trans normal.symm,
      isAbsolute_normalize absolute⟩
  | false =>
    have start : NormalStack false [] := ⟨[], 0, by simp, rfl⟩
    obtain ⟨names, climbs, named, left⟩ :=
      foldl_takeStep_normalStack (fun step => steps_proper (p := p)) start
    have normal : normalSteps p.components = List.replicate climbs .parent ++ names.reverse := by
      rw [normalSteps_components absolute, normalSteps, left]
      simp [normalStart]
    have proper : ∀ step ∈ List.replicate climbs .parent ++ names.reverse, step.Proper :=
      climb_proper climbs fun step member => (named step (List.mem_reverse.mp member)).2
    refine ⟨climbs, names.reverse, ?_, normal, ?_, ?_⟩
    next => exact fun step member => (named step (List.mem_reverse.mp member)).1
    next => rw [normalize, normal, components_ofComponents proper]
    next => rw [normalize, normal, (steps_ofComponents proper).1]

theorem normalSteps_normalize (p : Path) :
    normalSteps p.normalize.components = normalSteps p.components := by
  obtain ⟨climbs, names, named, normal, written, -⟩ := exists_normalSteps p
  rw [written, normal, normalSteps_append _ _ named]

theorem normalize_join (p q : Path) : (p.join q).normalize = (p.normalize.join q).normalize := by
  by_cases absolute : q.isAbsolute = true
  next => simp only [join, if_pos absolute]
  next =>
    have relative : q.isAbsolute = false := by simpa using absolute
    have same : p.normalize.reached = p.reached := by
      have steps := normalSteps_normalize p
      rwa [normalSteps_eq_reached, normalSteps_eq_reached, List.reverse_inj] at steps
    apply normalize_of_reached
    rw [reached_join relative, reached_join relative, same]

theorem normalize_join_parent {name : String} (proper : (Component.name name).Proper) :
    ((p.join ⟨name⟩).join ⟨".."⟩).normalize = p.normalize := by
  have relative := isAbsolute_text proper
  have read := steps_text proper
  rw [Component.text] at relative read
  apply normalize_of_reached
  rw [reached_join rfl, reached_join relative, read]
  rfl

theorem normalize_beq_iff :
    (p.normalize == p) = true ↔ IsNormalForm p.isAbsolute p.components := by
  obtain ⟨climbs, names, named, normal, written, -⟩ := exists_normalSteps p
  rw [beq_iff_components, written]
  constructor
  next =>
    intro same
    rw [← same, normal]
    exact isNormalForm_append named
  next =>
    intro own
    obtain ⟨climbs, names, named, rooted⟩ := exists_of_isNormalForm own
    rw [rooted, normalSteps_append _ _ named]

theorem normalize_isNormalForm (p : Path) :
    IsNormalForm p.isAbsolute p.normalize.components ∧
      p.normalize.isAbsolute = p.isAbsolute ∧
      p.normalize.normalize = p.normalize ∧
      (∀ q, (p.join q).normalize = (p.normalize.join q).normalize) ∧
      (∀ name, (Component.name name).Proper →
        ((p.join ⟨name⟩).join ⟨".."⟩).normalize = p.normalize) ∧
      ((p.normalize == p) = true ↔ IsNormalForm p.isAbsolute p.components) := by
  obtain ⟨climbs, names, named, normal, written, absolute⟩ := exists_normalSteps p
  refine ⟨?_, absolute, ?_, normalize_join p, fun _ => normalize_join_parent, normalize_beq_iff⟩
  next =>
    rw [written, normal]
    exact isNormalForm_append named
  next => rw [normalize, normalSteps_normalize, normalize]

end Paths

end Path

end SchemaMigration
