import SchemaMigration.Path.Lexical
import SchemaMigration.Proofs.PathSteps

set_option autoImplicit false

namespace SchemaMigration

def Component.IsName (step : Component) : Prop :=
  ∃ text, step = .name text

namespace Path

theorem isName_of_mem_steps {p : Path} {step : Component} (member : step ∈ p.steps)
    (down : step ≠ .parent) : step.IsName := by
  cases step with
  | root | current => exact absurd (steps_proper member) (by decide)
  | parent => exact absurd rfl down
  | name text => exact ⟨text, rfl⟩

theorem notMem_names {names : List Component} (named : ∀ step ∈ names, step.IsName)
    {step : Component} (other : ∀ text, step ≠ .name text) : step ∉ names := by
  intro member
  obtain ⟨text, same⟩ := named step member
  exact other text same

-- What steps in normal form start with: the root, or the `..` that nothing undoes.
def normalStart (absolute : Bool) (climbs : Nat) : List Component :=
  if absolute then [.root] else List.replicate climbs .parent

def NormalStack (absolute : Bool) (done : List Component) : Prop :=
  ∃ (names : List Component) (climbs : Nat),
    (∀ step ∈ names, step.IsName ∧ step.Proper) ∧ done = names ++ normalStart absolute climbs

theorem takeStep_normalStack {absolute : Bool} {done : List Component} {step : Component}
    (stack : NormalStack absolute done) (proper : step.Proper) :
    NormalStack absolute (takeStep done step) := by
  obtain ⟨names, climbs, named, rfl⟩ := stack
  cases step with
  | root | current => exact absurd proper (by decide)
  | parent =>
    cases names with
    | nil =>
      cases absolute with
      | true => exact ⟨[], climbs, named, rfl⟩
      | false =>
        -- Nothing is left to undo, so the `..` is one more to climb.
        refine ⟨[], climbs + 1, named, ?_⟩
        cases climbs <;> rfl
    | cons top below =>
      obtain ⟨text, rfl⟩ := (named top (by simp)).1
      exact ⟨below, climbs, fun step member => named step (by simp [member]), rfl⟩
  | name text =>
    refine ⟨.name text :: names, climbs, ?_, rfl⟩
    exact List.forall_mem_cons.mpr ⟨⟨⟨text, rfl⟩, proper⟩, named⟩

theorem foldl_takeStep_normalStack {absolute : Bool} {taken : List Component}
    (proper : ∀ step ∈ taken, step.Proper) {done : List Component}
    (stack : NormalStack absolute done) : NormalStack absolute (taken.foldl takeStep done) := by
  induction taken generalizing done with
  | nil => exact stack
  | cons step rest ih =>
    obtain ⟨first, others⟩ := List.forall_mem_cons.mp proper
    exact ih others (takeStep_normalStack stack first)

theorem normalSteps_root {taken : List Component} (proper : ∀ step ∈ taken, step.Proper) :
    ∃ names : List Component, (∀ step ∈ names, step.IsName ∧ step.Proper) ∧
      normalSteps (.root :: taken) = .root :: names := by
  have start : NormalStack true [.root] := ⟨[], 0, by simp, rfl⟩
  obtain ⟨names, climbs, named, result⟩ := foldl_takeStep_normalStack proper start
  refine ⟨names.reverse, by simpa using named, ?_⟩
  change (taken.foldl takeStep [.root]).reverse = _
  simp [result, normalStart]

theorem foldl_takeStep_names {names : List Component} (named : ∀ step ∈ names, step.IsName)
    (done : List Component) : names.foldl takeStep done = names.reverse ++ done := by
  induction names generalizing done with
  | nil => rfl
  | cons step rest ih =>
    obtain ⟨text, rfl⟩ := named step (by simp)
    have later := ih (fun other member => named other (List.mem_cons_of_mem _ member))
    simp [takeStep, later]

theorem foldl_takeStep_climbs (climbs : Nat) :
    (List.replicate climbs Component.parent).foldl takeStep [] =
      List.replicate climbs .parent := by
  induction climbs with
  | zero => rfl
  | succ climbs ih =>
    rw [List.replicate_succ', List.foldl_append, ih, ← List.replicate_succ', List.replicate_succ]
    cases climbs <;> rfl

theorem normalSteps_append (absolute : Bool) (climbs : Nat) {names : List Component}
    (named : ∀ step ∈ names, step.IsName) :
    normalSteps (normalStart absolute climbs ++ names) = normalStart absolute climbs ++ names := by
  have start : (normalStart absolute climbs).foldl takeStep [] =
      (normalStart absolute climbs).reverse := by
    cases absolute with
    | true => rfl
    | false => simpa [normalStart] using foldl_takeStep_climbs climbs
  rw [normalSteps, List.foldl_append, start, foldl_takeStep_names named]
  simp

theorem foldl_takeStep_parents {names : List Component} (named : ∀ step ∈ names, step.IsName)
    (below : List Component) :
    (List.replicate names.length Component.parent).foldl takeStep (names ++ below) = below := by
  induction names with
  | nil => rfl
  | cons step rest ih =>
    obtain ⟨text, rfl⟩ := named step (by simp)
    have later := ih (fun other member => named other (List.mem_cons_of_mem _ member))
    simpa [List.replicate_succ, takeStep] using later

theorem dropCommon_split (left right : List Component) :
    ∃ common, left = common ++ (dropCommon left right).1 ∧
      right = common ++ (dropCommon left right).2 := by
  fun_induction dropCommon left right with
  | case1 a left b right same ih =>
    obtain ⟨common, first, second⟩ := ih
    obtain rfl := beq_iff_eq.mp same
    exact ⟨a :: common, by simpa using first, by simpa using second⟩
  | case2 | case3 => exact ⟨[], rfl, rfl⟩

theorem components_normalize {p : Path} (absolute : p.isAbsolute = true) :
    ∃ names : List Component, (∀ step ∈ names, step.IsName ∧ step.Proper) ∧
      normalSteps p.components = .root :: names ∧ p.normalize.components = .root :: names := by
  rw [normalize, components_of_absolute absolute]
  obtain ⟨names, named, normal⟩ := normalSteps_root fun step => steps_proper (p := p)
  refine ⟨names, named, normal, ?_⟩
  rw [normal, components_ofComponents_root fun step member => (named step member).2]

theorem isAbsolute_normalize {p : Path} (absolute : p.isAbsolute = true) :
    p.normalize.isAbsolute = true := by
  obtain ⟨names, _, _, written⟩ := components_normalize absolute
  exact isAbsolute_of_components_root written

theorem normalize_normalize {p : Path} (absolute : p.isAbsolute = true) :
    p.normalize.normalize = p.normalize := by
  obtain ⟨names, named, normal, written⟩ := components_normalize absolute
  have kept : normalSteps (.root :: names) = .root :: names :=
    normalSteps_append true 0 fun step member => (named step member).1
  rw [normalize, written, kept, normalize, normal]

theorem toSpecifier_steps {p : Path} (proper : ∀ step ∈ p.components, step.Proper) :
    isRelativeSpecifier p.toSpecifier = true ∧ isAbsolute ⟨p.toSpecifier⟩ = false ∧
      steps ⟨p.toSpecifier⟩ = p.components := by
  have joined : ("/".intercalate (p.components.map Component.text)).toList =
      (['/'] : List Char).intercalate (p.components.map (·.text.toList)) := by
    simp [Function.comp_def]
  have read : readSteps ("/".intercalate (p.components.map Component.text)).toList =
      p.components := by
    rw [joined, readSteps_intercalate _ proper]
  simp only [toSpecifier, isRelativeSpecifier, isAbsolute, steps]
  -- From here only the joined text counts: it climbs, it is empty, or it needs a leading dot.
  generalize "/".intercalate (p.components.map Component.text) = text at read ⊢
  by_cases up : ("../".toList.isPrefixOf text.toList || text == "..") = true
  · rw [if_pos up]
    refine ⟨?_, ?_, read⟩
    · rcases Bool.or_eq_true _ _ |>.mp up with prefixed | whole
      · rw [prefixed, Bool.or_true]
      · simp [whole]
    · rcases Bool.or_eq_true _ _ |>.mp up with prefixed | whole
      · obtain ⟨rest, written⟩ := List.isPrefixOf_iff_prefix.mp prefixed
        simp [← written]
      · simp [beq_iff_eq.mp whole]
  · rw [if_neg up]
    by_cases empty : text.isEmpty = true
    · rw [if_pos empty]
      refine ⟨rfl, rfl, ?_⟩
      rw [← read, String.isEmpty_iff.mp empty]
      decide
    · rw [if_neg empty]
      refine ⟨by simp [String.toList_append], by simp [String.toList_append], ?_⟩
      have lead : ("./" ++ text).toList = ['.'] ++ '/' :: text.toList := by
        simp [String.toList_append]
      rw [lead, readSteps_append_slash, read]
      rfl

-- Climbing out of the names `up` and then going down the names `down`.
theorem normalSteps_climb {taken base up down : List Component}
    (upNamed : ∀ step ∈ up, step.IsName) (downNamed : ∀ step ∈ down, step.IsName)
    (reached : normalSteps taken = base ++ up) :
    normalSteps (taken ++ (List.replicate up.length .parent ++ down)) = base ++ down := by
  have stack : taken.foldl takeStep [] = up.reverse ++ base.reverse := by
    rw [← List.reverse_append, ← reached, normalSteps, List.reverse_reverse]
  have climbed := foldl_takeStep_parents (fun step member => upNamed step
    (List.mem_reverse.mp member)) base.reverse
  rw [List.length_reverse] at climbed
  rw [normalSteps, List.foldl_append, List.foldl_append, stack, climbed,
    foldl_takeStep_names downNamed]
  simp

theorem climb_proper (n : Nat) {down : List Component} (proper : ∀ step ∈ down, step.Proper)
    (step : Component) (member : step ∈ List.replicate n .parent ++ down) : step.Proper := by
  rcases List.mem_append.mp member with climbed | descended
  · rw [List.eq_of_mem_replicate climbed]
    exact Component.parent_proper
  · exact proper step descended

theorem components_relativeTo {directory target : Path} {common up down : List Component}
    (directoryWritten : directory.normalize.components = .root :: (common ++ up))
    (targetWritten : target.normalize.components = .root :: (common ++ down))
    (apart : dropCommon (common ++ up) (common ++ down) = (up, down))
    (proper : ∀ step ∈ down, step.Proper) :
    (target.relativeTo directory).components = List.replicate up.length .parent ++ down := by
  have both : dropCommon (.root :: (common ++ up)) (.root :: (common ++ down)) = (up, down) := by
    simpa [dropCommon] using apart
  simp only [relativeTo, directoryWritten, targetWritten, both, List.map_const']
  exact components_ofComponents (climb_proper up.length proper)

theorem normalize_join_relativeTo {directory target : Path}
    (directoryAbsolute : directory.isAbsolute = true) (targetAbsolute : target.isAbsolute = true) :
    isRelativeSpecifier (target.relativeTo directory).toSpecifier = true ∧
      (directory.join ⟨(target.relativeTo directory).toSpecifier⟩).normalize =
        target.normalize := by
  obtain ⟨start, startNamed, startNormal, startWritten⟩ := components_normalize directoryAbsolute
  obtain ⟨goal, goalNamed, goalNormal, goalWritten⟩ := components_normalize targetAbsolute
  -- Both normal forms share `common`; the way climbs out of `up` and goes down `down`.
  obtain ⟨common, startSplit, goalSplit⟩ := dropCommon_split start goal
  generalize apart : dropCommon start goal = rests at startSplit goalSplit
  obtain ⟨up, down⟩ := rests
  subst startSplit goalSplit
  have downNamed : ∀ step ∈ down, step.IsName ∧ step.Proper := fun step member =>
    goalNamed step (List.mem_append_right _ member)
  have downProper : ∀ step ∈ down, step.Proper := fun step member => (downNamed step member).2
  have way := components_relativeTo startWritten goalWritten apart downProper
  obtain ⟨isRelative, relative, read⟩ :=
    toSpecifier_steps (by rw [way]; exact climb_proper up.length downProper)
  have joined : (directory.join ⟨(target.relativeTo directory).toSpecifier⟩).components =
      directory.components ++ (List.replicate up.length .parent ++ down) := by
    rw [components_of_absolute ((isAbsolute_join relative).trans directoryAbsolute),
      steps_join relative, read, way, components_of_absolute directoryAbsolute, List.cons_append]
  have normal : normalSteps directory.components = (.root :: common) ++ up := startNormal
  have reached := normalSteps_climb
    (fun step member => (startNamed step (List.mem_append_right _ member)).1)
    (fun step member => (downNamed step member).1) normal
  refine ⟨isRelative, ?_⟩
  rw [normalize, joined, reached, normalize, goalNormal, List.cons_append]

end Path

end SchemaMigration
