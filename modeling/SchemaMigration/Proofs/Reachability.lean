import Mathlib.Data.List.Basic
import Mathlib.Logic.Relation
import SchemaMigration.Proofs.PathSets
import SchemaMigration.Usage.Closure

set_option autoImplicit false

namespace SchemaMigration.Dependencies

def Leads (deps : Dependencies) (p q : Path) : Prop :=
  (deps.targets p).contains q = true

def Reachable (deps : Dependencies) (seed : List Path) (p : Path) : Prop :=
  ∃ start, seed.contains start = true ∧ Relation.ReflTransGen deps.Leads start p

theorem leads_congr_left {deps : Dependencies} {p q target : Path} (same : (p == q) = true)
    (leads : deps.Leads p target) : deps.Leads q target := by
  rw [Leads, targets, ← PathMap.get?_congr deps same]
  exact leads

theorem contains_additions (deps : Dependencies) (reached : List Path) (p : Path) :
    (deps.additions reached).contains p = true ↔
      reached.contains p = false ∧ ∃ q, reached.contains q = true ∧ deps.Leads q p := by
  rw [additions, List.contains_iff_exists_mem_beq]
  constructor
  · rintro ⟨added, member, same⟩
    obtain ⟨target, fresh⟩ := List.mem_filter.mp member
    obtain ⟨q, held, leads⟩ := List.mem_flatMap.mp target
    refine ⟨?_, q, List.elem_eq_true_of_mem held, ?_⟩
    · rw [List.contains_congr same]
      simpa using fresh
    · rw [Leads, List.contains_congr same]
      exact List.elem_eq_true_of_mem leads
  · rintro ⟨fresh, q, held, leads⟩
    obtain ⟨source, member, same⟩ := List.contains_iff_exists_mem_beq.mp held
    obtain ⟨target, inside, equal⟩ :=
      List.contains_iff_exists_mem_beq.mp (leads_congr_left same leads)
    refine ⟨target, List.mem_filter.mpr ⟨List.mem_flatMap.mpr ⟨source, member, inside⟩, ?_⟩, equal⟩
    rw [← List.contains_congr equal, fresh]
    rfl

theorem contains_round (deps : Dependencies) (reached : List Path) (p : Path) :
    (Path.sortedSet (reached ++ deps.additions reached)).contains p = true ↔
      reached.contains p = true ∨ ∃ q, reached.contains q = true ∧ deps.Leads q p := by
  rw [Path.contains_sortedSet, List.contains_append, Bool.or_eq_true, contains_additions]
  by_cases held : reached.contains p = true <;> simp [held]

def Closed (deps : Dependencies) (reached : List Path) : Prop :=
  ∀ p q, reached.contains p = true → deps.Leads p q → reached.contains q = true

theorem closed_of_no_additions {deps : Dependencies} {reached : List Path}
    (done : (deps.additions reached).isEmpty = true) : deps.Closed reached := by
  intro p q held leads
  by_contra fresh
  have added := (contains_additions deps reached q).mpr ⟨by simpa using fresh, p, held, leads⟩
  rw [List.isEmpty_iff.mp done] at added
  cases added

def missing (deps : Dependencies) (reached : List Path) : List Path :=
  (deps.flatMap Prod.snd).filter fun target => !reached.contains target

theorem mem_targets {deps : Dependencies} {p target : Path} (member : target ∈ deps.targets p) :
    target ∈ deps.flatMap Prod.snd := by
  induction deps with
  | nil => cases member
  | cons entry rest ih =>
    obtain ⟨key, held⟩ := entry
    rw [List.flatMap_cons, List.mem_append]
    simp only [targets, PathMap.get?, List.lookup_cons] at member ih
    cases here : p == key with
    | true => exact .inl (by simpa [here] using member)
    | false => exact .inr (ih (by simpa [here] using member))

-- A round that adds something leaves fewer targets to be reached.
theorem missing_round {deps : Dependencies} {reached : List Path}
    (grows : (deps.additions reached).isEmpty = false) :
    (deps.missing (Path.sortedSet (reached ++ deps.additions reached))).length <
      (deps.missing reached).length := by
  obtain ⟨added, member⟩ : ∃ added, added ∈ deps.additions reached := by
    cases split : deps.additions reached with
    | nil => simp [split] at grows
    | cons added rest => exact ⟨added, by simp⟩
  obtain ⟨target, fresh⟩ := List.mem_filter.mp member
  obtain ⟨source, _, leads⟩ := List.mem_flatMap.mp target
  have fewer : deps.missing (Path.sortedSet (reached ++ deps.additions reached)) =
      (deps.missing reached).filter fun target => !(deps.additions reached).contains target := by
    simp [missing, List.filter_filter, Bool.and_comm]
  have reachedNow : (deps.additions reached).contains added = true :=
    List.elem_eq_true_of_mem member
  rw [fewer]
  exact List.length_filter_lt_length_iff_exists.mpr
    ⟨added, List.mem_filter.mpr ⟨mem_targets leads, fresh⟩, by simp [reachedNow]⟩

inductive Settles (deps : Dependencies) : Nat → List Path → List Path → Prop where
  | done {reached : List Path} (nothing : (deps.additions reached).isEmpty = true) :
      Settles deps 0 reached reached
  | round {n : Nat} {reached result : List Path}
      (grows : (deps.additions reached).isEmpty = false)
      (later : Settles deps n (Path.sortedSet (reached ++ deps.additions reached)) result) :
      Settles deps (n + 1) reached result

theorem Settles.closed {deps : Dependencies} {n : Nat} {reached result : List Path}
    (settles : deps.Settles n reached result) : deps.Closed result := by
  induction settles with
  | done nothing => exact closed_of_no_additions nothing
  | round _ _ ih => exact ih

theorem Settles.unique {deps : Dependencies} {n m : Nat} {reached result other : List Path}
    (settles : deps.Settles n reached result) (further : deps.Settles m reached other) :
    result = other := by
  induction settles generalizing m with
  | done nothing =>
    cases further with
    | done => rfl
    | round grows => simp [nothing] at grows
  | round grows _ ih =>
    cases further with
    | done nothing => simp [nothing] at grows
    | round _ later => exact ih later

theorem closeFrom_settles (deps : Dependencies) {fuel : Nat} {reached : List Path}
    (enough : (deps.missing reached).length < fuel) :
    ∃ n ≤ (deps.missing reached).length, deps.Settles n reached (deps.closeFrom fuel reached) := by
  induction fuel generalizing reached with
  | zero => omega
  | succ fuel ih =>
    rw [closeFrom]
    cases ends : (deps.additions reached).isEmpty with
    | true => exact ⟨0, Nat.zero_le _, by simpa [ends] using .done ends⟩
    | false =>
      -- The fuel falls by one and the missing targets by at least one.
      have fewer := missing_round ends
      obtain ⟨n, bound, later⟩ := ih (Nat.lt_of_lt_of_le fewer (Nat.le_of_lt_succ enough))
      exact ⟨n + 1, by omega, by simpa [ends] using .round ends later⟩

theorem close_settles (deps : Dependencies) (seed : List Path) :
    ∃ n ≤ (deps.flatMap Prod.snd).length,
      deps.Settles n (Path.sortedSet seed) (deps.close seed) := by
  have bound : (deps.missing (Path.sortedSet seed)).length ≤ (deps.flatMap Prod.snd).length :=
    List.length_filter_le _ _
  obtain ⟨n, within, settles⟩ := deps.closeFrom_settles (Nat.lt_succ_of_le bound)
  exact ⟨n, Nat.le_trans within bound, settles⟩

theorem Settles.before {deps : Dependencies} {n : Nat} {reached result : List Path}
    (settles : deps.Settles n reached result) (sorted : reached.Pairwise Path.Before) :
    result.Pairwise Path.Before := by
  induction settles with
  | done => exact sorted
  | round _ _ ih => exact ih (Path.sortedSet_before _)

theorem contains_closeFrom_of_contains (deps : Dependencies) (fuel : Nat) {reached : List Path}
    {p : Path} (held : reached.contains p = true) :
    (deps.closeFrom fuel reached).contains p = true := by
  induction fuel generalizing reached with
  | zero => exact held
  | succ fuel ih =>
    rw [closeFrom]
    split
    · exact held
    · exact ih ((contains_round deps reached p).mpr (.inl held))

theorem reachable_of_contains_closeFrom (deps : Dependencies) (fuel : Nat) {reached : List Path}
    {p : Path} (held : (deps.closeFrom fuel reached).contains p = true) :
    deps.Reachable reached p := by
  induction fuel generalizing reached with
  | zero => exact ⟨p, held, .refl⟩
  | succ fuel ih =>
    rw [closeFrom] at held
    split at held
    · exact ⟨p, held, .refl⟩
    · -- A path from what a round added starts one step before it.
      obtain ⟨start, inside, path⟩ := ih held
      rcases (contains_round deps reached start).mp inside with before | ⟨source, before, leads⟩
      · exact ⟨start, before, path⟩
      · exact ⟨source, before, path.head leads⟩

theorem contains_of_reachable {deps : Dependencies} {closure seed : List Path}
    (closed : deps.Closed closure) (held : ∀ p, seed.contains p = true → closure.contains p = true)
    {p : Path} (reachable : deps.Reachable seed p) : closure.contains p = true := by
  obtain ⟨start, inside, path⟩ := reachable
  induction path with
  | refl => exact held start inside
  | tail _ leads ih => exact closed _ _ ih leads

theorem contains_close (deps : Dependencies) (seed : List Path) (p : Path) :
    (deps.close seed).contains p = true ↔ deps.Reachable seed p := by
  constructor
  · intro held
    obtain ⟨start, inside, path⟩ := reachable_of_contains_closeFrom deps _ held
    exact ⟨start, by simpa using inside, path⟩
  · obtain ⟨n, -, settles⟩ := deps.close_settles seed
    apply contains_of_reachable settles.closed
    intro q inside
    exact contains_closeFrom_of_contains deps _ (by simpa using inside)

theorem close_exact (deps : Dependencies) (seed : List Path) :
    (∃ n ≤ (deps.flatMap Prod.snd).length,
      deps.Settles n (Path.sortedSet seed) (deps.close seed)) ∧
    (∀ n result, deps.Settles n (Path.sortedSet seed) result → result = deps.close seed) ∧
    (deps.close seed).Pairwise Path.Before ∧
    ∀ p, (deps.close seed).contains p = true ↔ deps.Reachable seed p := by
  obtain ⟨n, within, settles⟩ := deps.close_settles seed
  refine ⟨⟨n, within, settles⟩, ?_, settles.before (Path.sortedSet_before seed),
    deps.contains_close seed⟩
  intro m result further
  exact further.unique settles

end SchemaMigration.Dependencies
