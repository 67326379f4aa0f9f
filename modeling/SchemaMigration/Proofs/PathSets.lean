import Mathlib.Data.List.Basic
import SchemaMigration.Path.Order

set_option autoImplicit false

namespace SchemaMigration

namespace Path

theorem contains_filter {keep : Path → Bool}
    (congr : ∀ p q : Path, (p == q) = true → keep p = keep q) (paths : List Path) (p : Path) :
    (paths.filter keep).contains p = (paths.contains p && keep p) := by
  induction paths with
  | nil => rfl
  | cons first rest ih =>
    by_cases same : (p == first) = true
    · have equal := congr p first same
      by_cases kept : keep first = true <;> simp_all
    · by_cases kept : keep first = true <;> simp_all

theorem contains_dropRepeatedAfter (p q : Path) (rest : List Path) :
    (p :: dropRepeatedAfter p rest).contains q = (p :: rest).contains q := by
  induction rest generalizing p with
  | nil => rfl
  | cons next rest ih =>
    rw [dropRepeatedAfter]
    split
    next repeated =>
      have covered : (q == next) = true → (q == p) = true := fun same =>
        BEq.trans same (BEq.symm repeated)
      have kept := ih p
      simp only [List.contains_cons] at kept ⊢
      rw [kept]
      grind
    next =>
      have kept := ih next
      simp only [List.contains_cons] at kept ⊢
      rw [kept]

theorem dropRepeatedAfter_sublist (p : Path) (rest : List Path) :
    (dropRepeatedAfter p rest).Sublist rest := by
  induction rest generalizing p with
  | nil => exact .slnil
  | cons next rest ih =>
    rw [dropRepeatedAfter]
    split
    · exact (ih p).cons next
    · exact (ih next).cons_cons next

theorem mem_of_mem_sortedSet {paths : List Path} {p : Path} (member : p ∈ sortedSet paths) :
    p ∈ paths := by
  have dropped : (sortedSet paths).Sublist (sort paths) := by
    rw [sortedSet]
    cases sort paths with
    | nil => exact .slnil
    | cons first rest => exact (dropRepeatedAfter_sublist first rest).cons_cons first
  exact List.mem_mergeSort.mp (dropped.subset member)

@[simp] theorem contains_sortedSet (paths : List Path) (p : Path) :
    (sortedSet paths).contains p = paths.contains p := by
  have dropped (sorted : List Path) : (dropRepeated sorted).contains p = sorted.contains p := by
    cases sorted with
    | nil => rfl
    | cons first rest => exact contains_dropRepeatedAfter first p rest
  rw [sortedSet, dropped]
  exact (List.mergeSort_perm paths Path.le).contains_eq

end Path

namespace Component

theorem le_total (a b : Component) : a.le b = true ∨ b.le a = true := by
  cases a <;> cases b <;> simp [le, rank, String.le_total]

theorem le_antisymm {a b : Component} (first : a.le b = true) (second : b.le a = true) : a = b := by
  cases a <;> cases b <;> simp_all [le, rank]
  exact String.le_antisymm first second

theorem le_trans {a b c : Component} (first : a.le b = true) (second : b.le c = true) :
    a.le c = true := by
  cases a <;> cases b <;> cases c <;> simp_all [le, rank]
  exact String.le_trans first second

end Component

namespace Path

theorem componentsLe_total (a b : List Component) :
    componentsLe a b = true ∨ componentsLe b a = true := by
  fun_induction componentsLe a b with
  | case1 => exact .inl rfl
  | case2 => exact .inr rfl
  | case3 a as b bs same ih => simpa [componentsLe, beq_iff_eq.mp same] using ih
  | case4 a as b bs apart =>
    have other : ¬(b == a) = true := by rwa [BEq.comm]
    simpa [componentsLe, other] using a.le_total b

theorem componentsLe_antisymm {a b : List Component} (first : componentsLe a b = true)
    (second : componentsLe b a = true) : a = b := by
  fun_induction componentsLe a b with
  | case1 b =>
    cases b with
    | nil => rfl
    | cons => cases second
  | case2 => cases first
  | case3 a as b bs same ih =>
    obtain rfl := beq_iff_eq.mp same
    rw [ih first (by simpa [componentsLe] using second)]
  | case4 a as b bs apart =>
    have other : ¬(b == a) = true := by rwa [BEq.comm]
    simp only [componentsLe, other] at second
    exact absurd (beq_iff_eq.mpr (Component.le_antisymm first second)) apart

theorem componentsLe_trans {a b c : List Component} (first : componentsLe a b = true)
    (second : componentsLe b c = true) : componentsLe a c = true := by
  fun_induction componentsLe a b generalizing c with
  | case1 => rfl
  | case2 => cases first
  | case3 a as b bs same ih =>
    obtain rfl := beq_iff_eq.mp same
    cases c with
    | nil => cases second
    | cons c cs =>
      rw [componentsLe] at second ⊢
      split
      next equal => exact ih first (by simpa [equal] using second)
      next other => simpa [other] using second
  | case4 a as b bs apart =>
    cases c with
    | nil => cases second
    | cons c cs =>
      rw [componentsLe] at second ⊢
      -- The first step that differs decides, and after it no step counts.
      by_cases equal : (b == c) = true
      · obtain rfl := beq_iff_eq.mp equal
        simpa [apart] using first
      · simp only [equal] at second
        split
        next turned =>
          obtain rfl := beq_iff_eq.mp turned
          exact absurd (beq_iff_eq.mpr (Component.le_antisymm first second)) apart
        next => exact Component.le_trans first second

def Before (p q : Path) : Prop :=
  p.le q = true ∧ (p == q) = false

theorem Before.trans {p q r : Path} (first : Before p q) (second : Before q r) : Before p r := by
  refine ⟨componentsLe_trans first.1 second.1, ?_⟩
  rw [Bool.eq_false_iff]
  intro same
  have back : r.le q = true := by
    have equal := beq_iff_components.mp same
    simpa [le, equal] using first.1
  have turned : (q == r) = true := beq_iff_components.mpr (componentsLe_antisymm second.1 back)
  rw [second.2] at turned
  cases turned

theorem dropRepeatedAfter_before {p : Path} {rest : List Path}
    (sorted : (p :: rest).Pairwise fun a b => a.le b = true) :
    (p :: dropRepeatedAfter p rest).Pairwise Before := by
  induction rest generalizing p with
  | nil => exact List.pairwise_singleton _ _
  | cons next rest ih =>
    obtain ⟨above, others⟩ := List.pairwise_cons.mp sorted
    rw [dropRepeatedAfter]
    split
    next => exact ih (List.pairwise_cons.mpr
      ⟨fun q member => above q (List.mem_cons_of_mem _ member), (List.pairwise_cons.mp others).2⟩)
    next apart =>
      have later := ih others
      have first : Before p next := ⟨above next List.mem_cons_self, by simpa using apart⟩
      refine List.pairwise_cons.mpr ⟨?_, later⟩
      intro q member
      rcases List.mem_cons.mp member with rfl | member
      · exact first
      · exact first.trans ((List.pairwise_cons.mp later).1 q member)

theorem sortedSet_before (paths : List Path) : (sortedSet paths).Pairwise Before := by
  have sorted : (sort paths).Pairwise fun a b => a.le b = true := by
    refine List.pairwise_mergeSort ?_ ?_ paths
    · intro a b c first second
      exact componentsLe_trans first second
    · intro a b
      simpa [le] using componentsLe_total a.components b.components
  rw [sortedSet]
  cases ordered : sort paths with
  | nil => exact .nil
  | cons first rest => exact dropRepeatedAfter_before (ordered ▸ sorted)

end Path

namespace PathMap

variable {α : Type}

theorem get?_congr (m : PathMap α) {p q : Path} (same : (p == q) = true) : m.get? p = m.get? q := by
  induction m with
  | nil => rfl
  | cons entry rest ih =>
    obtain ⟨key, held⟩ := entry
    simp only [get?, List.lookup_cons, BEq.congr_left same] at ih ⊢
    rw [ih]

theorem get?_insert (m : PathMap α) (p q : Path) (value : α) :
    (m.insert p value).get? q = if q == p then some value else m.get? q := by
  induction m with
  | nil =>
    simp only [insert, get?, List.lookup_cons, List.lookup_nil]
    cases q == p <;> rfl
  | cons entry rest ih =>
    obtain ⟨key, old⟩ := entry
    rw [insert]
    split
    next same =>
      simp only [get?, List.lookup_cons, BEq.congr_right same]
      cases q == key <;> rfl
    next apart =>
      simp only [get?, List.lookup_cons] at ih ⊢
      rw [ih]
      by_cases here : (q == key) = true
      · have other : (q == p) = false := by
          by_contra same
          simp only [Bool.not_eq_false] at same
          exact apart (BEq.trans (BEq.symm same) here)
        simp [here, other]
      · simp [here]

def Distinct (m : PathMap α) : Prop :=
  m.Pairwise fun first second => (first.1 == second.1) = false

theorem mem_insert {m : PathMap α} {p : Path} {value : α} {entry : Path × α}
    (member : entry ∈ m.insert p value) : (entry.1 == p) = true ∨ ∃ old, (entry.1, old) ∈ m := by
  induction m with
  | nil => simp_all [insert]
  | cons first rest ih =>
    rw [insert] at member
    split at member
    next same =>
      rcases List.mem_cons.mp member with rfl | member
      · exact .inl (BEq.symm same)
      · exact .inr ⟨entry.2, by simp [member]⟩
    next =>
      rcases List.mem_cons.mp member with rfl | member
      · exact .inr ⟨_, List.mem_cons_self⟩
      · rcases ih member with same | ⟨old, inside⟩
        · exact .inl same
        · exact .inr ⟨old, List.mem_cons_of_mem _ inside⟩

theorem insert_distinct {m : PathMap α} (distinct : m.Distinct) (p : Path) (value : α) :
    (m.insert p value).Distinct := by
  induction m with
  | nil => simp [insert, Distinct]
  | cons entry rest ih =>
    obtain ⟨key, old⟩ := entry
    obtain ⟨apart, others⟩ := List.pairwise_cons.mp distinct
    rw [insert]
    split
    next => exact List.pairwise_cons.mpr ⟨apart, others⟩
    next fresh =>
      refine List.pairwise_cons.mpr ⟨?_, ih others⟩
      intro other member
      rcases mem_insert member with same | ⟨old, inside⟩
      · rw [BEq.congr_right same, BEq.comm]
        simpa using fresh
      · exact apart (other.1, old) inside

theorem get?_eq_some_iff {m : PathMap α} (distinct : m.Distinct) {p : Path} {value : α} :
    m.get? p = some value ↔ ∃ key, (key, value) ∈ m ∧ (p == key) = true := by
  induction m with
  | nil => simp [get?]
  | cons entry rest ih =>
    obtain ⟨key, held⟩ := entry
    obtain ⟨apart, others⟩ := List.pairwise_cons.mp distinct
    simp only [get?, List.lookup_cons] at ih ⊢
    cases here : p == key with
    | true =>
      constructor
      · rintro ⟨⟩
        exact ⟨key, List.mem_cons_self, here⟩
      · rintro ⟨other, member, same⟩
        rcases List.mem_cons.mp member with equal | member
        · simp_all
        · have away := apart _ member
          rw [← BEq.congr_left here, same] at away
          cases away
    | false =>
      rw [ih others]
      constructor
      · rintro ⟨other, member, same⟩
        exact ⟨other, List.mem_cons_of_mem _ member, same⟩
      · rintro ⟨other, member, same⟩
        rcases List.mem_cons.mp member with equal | member
        · simp_all
        · exact ⟨other, member, same⟩

theorem sorted_distinct {m : PathMap α} (distinct : m.Distinct) : m.sorted.Distinct := by
  have order : m.sorted.Perm m := List.mergeSort_perm _ _
  exact (order.pairwise_iff fun apart => by rw [BEq.comm]; exact apart).mpr distinct

theorem get?_sorted {m : PathMap α} (distinct : m.Distinct) (p : Path) :
    m.sorted.get? p = m.get? p := by
  have order : m.sorted.Perm m := List.mergeSort_perm _ _
  apply Option.ext
  intro value
  rw [get?_eq_some_iff (sorted_distinct distinct), get?_eq_some_iff distinct]
  simp only [order.mem_iff]

end PathMap

end SchemaMigration
