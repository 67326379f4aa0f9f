import Mathlib.Data.List.Perm.Basic
import SchemaMigration.Proofs.CanonicalPaths
import SchemaMigration.Proofs.Loading
import SchemaMigration.Proofs.UsageGraph

set_option autoImplicit false

namespace SchemaMigration

namespace Path

variable {paths others : List Path}

theorem eq_of_le_of_le {p q : Path} (canonical : p.IsCanonical) (other : q.IsCanonical)
    (first : p.le q = true) (second : q.le p = true) : p = q := by
  apply canonical.eq_of_beq other
  exact beq_iff_components.mpr (componentsLe_antisymm first second)

theorem sort_pairwise (paths : List Path) : (sort paths).Pairwise fun p q => p.le q = true := by
  apply List.pairwise_mergeSort
  next =>
    intro p q r first second
    exact componentsLe_trans first second
  next =>
    intro p q
    simpa [le] using componentsLe_total p.components q.components

theorem sortedSet_perm (order : paths.Perm others) (canonical : ∀ p ∈ paths, p.IsCanonical) :
    sortedSet paths = sortedSet others := by
  have sorted : (sort paths).Perm paths := List.mergeSort_perm paths Path.le
  have sorted' : (sort others).Perm others := List.mergeSort_perm others Path.le
  have same : sort paths = sort others := by
    apply List.Perm.eq_of_pairwise ?_ (sort_pairwise paths) (sort_pairwise others)
    next => exact sorted.trans (order.trans sorted'.symm)
    next =>
      intro p q first second
      apply eq_of_le_of_le
      next => exact canonical p (sorted.mem_iff.mp first)
      next => exact canonical q (order.mem_iff.mpr (sorted'.mem_iff.mp second))
  rw [sortedSet, sortedSet, same]

theorem Distinct.nodup (distinct : Distinct paths) : paths.Nodup := by
  apply distinct.imp
  intro p q apart same
  rw [same, BEq.rfl] at apart
  cases apart

theorem mem_iff_contains (canonical : ∀ p ∈ paths, p.IsCanonical) {p : Path}
    (own : p.IsCanonical) : p ∈ paths ↔ paths.contains p = true := by
  rw [List.contains_iff_exists_mem_beq]
  constructor
  next =>
    intro member
    exact ⟨p, member, BEq.rfl⟩
  next =>
    rintro ⟨q, member, same⟩
    rwa [own.eq_of_beq (canonical q member) same]

theorem Distinct.perm_of_contains (distinct : Distinct paths) (distinct' : Distinct others)
    (canonical : ∀ p ∈ paths, p.IsCanonical) (canonical' : ∀ p ∈ others, p.IsCanonical)
    (same : ∀ p, paths.contains p = others.contains p) : paths.Perm others := by
  apply (List.perm_ext_iff_of_nodup distinct.nodup distinct'.nodup).mpr
  intro p
  constructor
  next =>
    intro member
    have known := (mem_iff_contains canonical (canonical p member)).mp member
    exact (mem_iff_contains canonical' (canonical p member)).mpr (same p ▸ known)
  next =>
    intro member
    have known := (mem_iff_contains canonical' (canonical' p member)).mp member
    exact (mem_iff_contains canonical (canonical' p member)).mpr (same p ▸ known)

theorem Distinct.append_new (distinct : Distinct paths) (distinct' : Distinct others) :
    Distinct (paths ++ others.filter fun p => !paths.contains p) := by
  apply List.pairwise_append.mpr
  refine ⟨distinct, distinct'.sublist List.filter_sublist, ?_⟩
  intro p known q late
  rw [Bool.eq_false_iff]
  intro same
  have listed := List.contains_iff_exists_mem_beq.mpr ⟨p, known, BEq.symm same⟩
  simp [listed] at late

theorem Distinct.find?_eq_some_iff (distinct : Distinct paths) {p q : Path} :
    paths.find? (p == ·) = some q ↔ q ∈ paths ∧ (p == q) = true := by
  constructor
  next =>
    intro found
    exact ⟨List.mem_of_find?_eq_some found, List.find?_some found⟩
  next =>
    rintro ⟨member, same⟩
    cases found : paths.find? (p == ·) with
    | none => exact absurd same (List.find?_eq_none.mp found q member)
    | some r =>
      have equal : (r == q) = true := BEq.trans (BEq.symm (List.find?_some found)) same
      rw [distinct.eq_of_beq (List.mem_of_find?_eq_some found) member equal]

theorem Distinct.find?_perm (distinct : Distinct paths) (distinct' : Distinct others)
    (order : paths.Perm others) (p : Path) :
    paths.find? (p == ·) = others.find? (p == ·) := by
  apply Option.ext
  intro q
  rw [distinct.find?_eq_some_iff, distinct'.find?_eq_some_iff, order.mem_iff]

end Path

namespace PathMap

variable {α : Type} {m other : PathMap α}

theorem sorted_pairwise (m : PathMap α) : m.sorted.Pairwise fun a b => a.1.le b.1 = true := by
  apply List.pairwise_mergeSort
  next =>
    intro a b c first second
    exact Path.componentsLe_trans first second
  next =>
    intro a b
    simpa [Path.le] using Path.componentsLe_total a.1.components b.1.components

theorem sorted_perm (order : m.Perm other) (distinct : m.Distinct) : m.sorted = other.sorted := by
  have sorted : m.sorted.Perm m := List.mergeSort_perm m _
  have sorted' : other.sorted.Perm other := List.mergeSort_perm other _
  apply List.Perm.eq_of_pairwise ?_ m.sorted_pairwise other.sorted_pairwise
  next => exact sorted.trans (order.trans sorted'.symm)
  next =>
    intro a b first second lower upper
    have same : (a.1 == b.1) = true :=
      Path.beq_iff_components.mpr (Path.componentsLe_antisymm lower upper)
    have symmetric : Std.Symm fun a b : Path × α => (a.1 == b.1) = false :=
      ⟨fun a b apart => by rwa [BEq.comm]⟩
    by_contra unlike
    have apart := List.Pairwise.forall distinct (sorted.mem_iff.mp first)
      (order.mem_iff.mpr (sorted'.mem_iff.mp second)) unlike
    rw [same] at apart
    cases apart

theorem insert_of_fresh {p : Path} (fresh : ∀ entry ∈ m, (p == entry.1) = false) (value : α) :
    m.insert p value = m ++ [(p, value)] := by
  induction m with
  | nil => rfl
  | cons entry rest ih =>
    have apart := fresh entry List.mem_cons_self
    simp [insert, apart, ih fun later member => fresh later (List.mem_cons_of_mem entry member)]

end PathMap

namespace Context

variable {parsed parsed' : PathMap SourceFile} {models others mixins : List Path}

section Edges

variable (targets : Path → SourceFile → List Path)

theorem edges_eq_filterMap (parsed : PathMap SourceFile) {paths : List Path}
    (distinct : Path.Distinct paths) :
    edges parsed targets paths =
      paths.filterMap fun p => (targetsOf? parsed targets p).map (Prod.mk p) := by
  have aux (rest : List Path) (found : Dependencies) (distinct : Path.Distinct rest)
      (fresh : ∀ p ∈ rest, ∀ entry ∈ found, (p == entry.1) = false) :
      rest.foldl (addEntry parsed targets) found =
        found ++ rest.filterMap fun p => (targetsOf? parsed targets p).map (Prod.mk p) := by
    induction rest generalizing found with
    | nil => simp
    | cons p rest ih =>
      obtain ⟨apart, later⟩ := List.pairwise_cons.mp distinct
      have before := fun q member => fresh q (List.mem_cons_of_mem p member)
      cases reached : targetsOf? parsed targets p with
      | none => simpa [addEntry, reached] using ih found later before
      | some reach =>
        have added := PathMap.insert_of_fresh (fresh p List.mem_cons_self) reach
        have step := ih (found ++ [(p, reach)]) later (by
          intro q member entry listed
          rcases List.mem_append.mp listed with old | last
          next => exact before q member entry old
          next =>
            rw [List.mem_singleton.mp last, BEq.comm]
            exact apart q member)
        simpa [addEntry, reached, added] using step
  rw [edges_eq_foldl]
  simpa using aux paths [] distinct (by simp)

theorem edges_congr (read : ∀ p, parsed.get? p = parsed'.get? p) (paths : List Path) :
    edges parsed targets paths = edges parsed' targets paths := by
  have same : targetsOf? parsed targets = targetsOf? parsed' targets := by
    funext p
    rw [targetsOf?, targetsOf?, read]
  rw [edges_eq_foldl, edges_eq_foldl]
  unfold addEntry
  rw [same]

end Edges

variable {ctx : Context} {d : Disk}

theorem modelTargets_isCanonical (start : Place.IsProper d.workingDirectory)
    (listed : ∀ p ∈ mixins, p.IsCanonical) (f : SourceFile) :
    ∀ p ∈ ctx.modelTargets d mixins f, p.IsCanonical := by
  intro p member
  rcases List.mem_append.mp (Path.mem_of_mem_sortedSet member) with imported | named
  next =>
    obtain ⟨i, -, found⟩ := List.mem_filterMap.mp (List.mem_of_mem_filter imported)
    exact resolve?_isCanonical start (Option.filter_eq_some_iff.mp found).1
  next => exact listed p (List.mem_of_mem_filter named)

theorem usage_perm (start : Place.IsProper d.workingDirectory)
    (listed : ∀ p ∈ mixins, p.IsCanonical) (distinct : Path.Distinct models)
    (distinct' : Path.Distinct others) (order : models.Perm others)
    (read : ∀ p, parsed.get? p = parsed'.get? p) :
    (ctx.usage d models mixins parsed).1 = (ctx.usage d others mixins parsed').1 := by
  let targets := fun (_ : Path) => ctx.modelTargets d mixins
  have edges : (edges parsed targets models).Perm (edges parsed' targets others) := by
    rw [edges_congr targets read, edges_eq_filterMap targets parsed' distinct,
      edges_eq_filterMap targets parsed' distinct']
    exact order.filterMap _
  have sorted := PathMap.sorted_perm edges (edges_distinct parsed targets models)
  have seeds : ∀ p ∈ (Context.edges parsed targets models).flatMap Prod.snd, p.IsCanonical := by
    rw [edges_eq_filterMap targets parsed distinct]
    intro p member
    obtain ⟨entry, inside, held⟩ := List.mem_flatMap.mp member
    obtain ⟨q, -, found⟩ := List.mem_filterMap.mp inside
    obtain ⟨reached, chosen, rfl⟩ := Option.map_eq_some_iff.mp found
    obtain ⟨f, -, kept⟩ := Option.bind_eq_some_iff.mp chosen
    split at kept
    next =>
      cases kept
      exact modelTargets_isCanonical start listed f p held
    next => cases kept
  have closed := Path.sortedSet_perm (edges.flatMap_right Prod.snd) seeds
  simp only [usage, Dependencies.close]
  rw [edges_congr (ctx.mixinTargets d mixins) read mixins]
  simp only [targets] at sorted closed
  rw [sorted, closed]

end Context

end SchemaMigration
