import Mathlib.Data.List.Basic
import SchemaMigration.Text.Identifier

set_option autoImplicit false

namespace SchemaMigration.Text

open Character

variable {ident : List Char}

section Boundaries

def OccursWhole (text ident : List Char) : Prop :=
  ∃ before after, text = before ++ ident ++ after ∧ isBoundary before.getLast? = true ∧
    isBoundary after.head? = true

-- It stands there at least `skip` characters on; `first` comes right before the text.
def OccursFrom (ident : List Char) (skip : Nat) (first : Option Char) (s : List Char) : Prop :=
  ∃ before after, s = before ++ ident ++ after ∧ skip ≤ before.length ∧
    isBoundary (before.getLast?.or first) = true ∧ isBoundary after.head? = true

variable {skip : Nat} {first : Option Char} {c : Char} {rest : List Char}

theorem occursFrom_succ_cons :
    OccursFrom ident (skip + 1) first (c :: rest) ↔ OccursFrom ident skip (some c) rest := by
  constructor
  · rintro ⟨_ | ⟨y, before⟩, after, split, fits, front, back⟩
    · simp at fits
    · obtain ⟨rfl, split'⟩ := List.cons.inj split
      rw [List.getLast?_cons, Option.some_or] at front
      exact ⟨before, after, split', Nat.le_of_succ_le_succ fits, by simpa using front, back⟩
  · rintro ⟨before, after, rfl, fits, front, back⟩
    have front' : isBoundary ((c :: before).getLast?.or first) = true := by
      simpa [List.getLast?_cons] using front
    exact ⟨c :: before, after, rfl, Nat.succ_le_succ fits, front', back⟩

theorem occursFrom_zero_iff {s : List Char} : OccursFrom ident 0 first s ↔
    (∃ after, s = ident ++ after ∧ isBoundary first = true ∧ isBoundary after.head? = true) ∨
      OccursFrom ident 1 first s := by
  constructor
  · rintro ⟨_ | ⟨y, before⟩, after, split, -, front, back⟩
    · exact .inl ⟨after, split, front, back⟩
    · exact .inr ⟨y :: before, after, split, by simp, front, back⟩
  · rintro (⟨after, split, front, back⟩ | ⟨before, after, split, -, bounds⟩)
    · exact ⟨[], after, split, Nat.zero_le _, front, back⟩
    · exact ⟨before, after, split, Nat.zero_le _, bounds⟩

-- What stands right before an occurrence that overlaps an earlier one is one of its characters.
theorem length_le_of_isBoundary (chars : ∀ c ∈ ident, isIdentifierChar c = true)
    {before after : List Char} (found : ident <+: before ++ after) (moved : before ≠ [])
    (front : isBoundary before.getLast? = true) : ident.length ≤ before.length := by
  by_contra short
  have inside : before <+: ident :=
    List.prefix_of_prefix_length_le (List.prefix_append before after) found (by omega)
  have last := chars _ (inside.subset (List.getLast_mem moved))
  rw [List.getLast?_eq_some_getLast moved, isBoundary, last] at front
  cases front

theorem occursFrom_length_iff (chars : ∀ c ∈ ident, isIdentifierChar c = true)
    (found : ident <+: c :: rest) :
    OccursFrom ident (ident.length - 1 + 1) first (c :: rest) ↔
      OccursFrom ident 1 first (c :: rest) := by
  constructor
  · rintro ⟨before, after, split, fits, bounds⟩
    exact ⟨before, after, split, by omega, bounds⟩
  · rintro ⟨before, after, split, fits, front, back⟩
    refine ⟨before, after, split, ?_, front, back⟩
    have moved : before ≠ [] := List.ne_nil_of_length_pos fits
    rw [List.getLast?_eq_some_getLast moved, Option.some_or,
      ← List.getLast?_eq_some_getLast moved] at front
    rw [split, List.append_assoc] at found
    have far := length_le_of_isBoundary chars found moved front
    omega

theorem occursWholeFrom_iff (nonempty : ident ≠ [])
    (chars : ∀ c ∈ ident, isIdentifierChar c = true) {s : List Char} :
    occursWholeFrom ident skip first s = true ↔ OccursFrom ident skip first s := by
  induction s generalizing skip first with
  | nil => simp [occursWholeFrom, OccursFrom, nonempty]
  | cons c rest ih =>
    cases skip with
    | succ skip => rw [occursFrom_succ_cons, ← ih, occursWholeFrom]
    | zero =>
      rw [occursFrom_zero_iff, occursWholeFrom]
      split
      next found =>
        have isPrefix := List.isPrefixOf_iff_prefix.mp found
        have ⟨after, whole⟩ := isPrefix
        rw [Bool.or_eq_true, Bool.and_eq_true, ih, ← occursFrom_succ_cons,
          occursFrom_length_iff chars isPrefix, ← whole, List.drop_left]
        refine or_congr_left ⟨fun ends => ⟨after, rfl, ends⟩, ?_⟩
        rintro ⟨after', split, ends⟩
        rwa [List.append_cancel_left split]
      next missing =>
        rw [ih, ← occursFrom_succ_cons]
        refine (or_iff_right ?_).symm
        rintro ⟨after, split, -⟩
        exact missing (List.isPrefixOf_iff_prefix.mpr ⟨after, split.symm⟩)

theorem containsIdentifier_eq {text ident : String} (nonempty : ident ≠ "") :
    containsIdentifier text ident = occursWholeFrom ident.toList 0 none text.toList := by
  simp [containsIdentifier, nonempty]

theorem containsIdentifier_iff {text ident : String} (nonempty : ident ≠ "")
    (chars : ∀ c ∈ ident.toList, isIdentifierChar c = true) :
    containsIdentifier text ident = true ↔ OccursWhole text.toList ident.toList := by
  rw [containsIdentifier_eq nonempty, occursWholeFrom_iff (by simpa using nonempty) chars]
  simp [OccursFrom, OccursWhole]

end Boundaries

section Separators

variable {x : Char}

theorem isPrefixOf_append_cons (absent : x ∉ ident) (s t : List Char) :
    ident.isPrefixOf (s ++ x :: t) = ident.isPrefixOf s := by
  induction s generalizing ident with
  | nil =>
    cases ident with
    | nil => rfl
    | cons a as =>
      have other : a ≠ x := fun same => absent (by simp [same])
      simp [List.isPrefixOf, other]
  | cons c s ih =>
    cases ident with
    | nil => rfl
    | cons a as =>
      have absent : x ∉ as := fun member => absent (List.mem_cons_of_mem a member)
      simp only [List.cons_append, List.isPrefixOf, ih absent]

theorem occursWholeFrom_boundary (bounds : isBoundary (some x) = true) (s : List Char) :
    occursWholeFrom ident 0 (some x) s = occursWholeFrom ident 0 none s := by
  cases s with
  | nil => rfl
  | cons c rest =>
    have none : isBoundary none = true := rfl
    simp only [occursWholeFrom, bounds, none]

theorem isBoundary_head?_append_cons (bounds : isBoundary (some x) = true) (s t : List Char) :
    isBoundary (s ++ x :: t).head? = isBoundary s.head? := by
  cases s with
  | nil => exact bounds
  | cons c s => rfl

theorem occursWholeFrom_append_cons (nonempty : ident ≠ []) (absent : x ∉ ident)
    (bounds : isBoundary (some x) = true) {skip : Nat} {first : Option Char} {s : List Char}
    (fits : skip ≤ s.length) (t : List Char) :
    occursWholeFrom ident skip first (s ++ x :: t) =
      (occursWholeFrom ident skip first s || occursWholeFrom ident 0 none t) := by
  induction s generalizing skip first with
  | nil =>
    obtain rfl : skip = 0 := by simpa using fits
    have fails : ident.isPrefixOf (x :: t) = false := by
      have := isPrefixOf_append_cons absent [] t
      cases ident with
      | nil => exact absurd rfl nonempty
      | cons a as => simpa using this
    simp [occursWholeFrom, fails, occursWholeFrom_boundary bounds]
  | cons c s ih =>
    cases skip with
    | succ skip => exact ih (Nat.le_of_succ_le_succ fits)
    | zero =>
      have same := isPrefixOf_append_cons absent (c :: s) t
      simp only [List.cons_append] at same ⊢
      simp only [occursWholeFrom, same]
      split
      next found =>
        have short : ident.length ≤ (c :: s).length :=
          (List.isPrefixOf_iff_prefix.mp found).length_le
        have after : (c :: (s ++ x :: t)).drop ident.length =
            (c :: s).drop ident.length ++ x :: t := List.drop_append_of_le_length short
        rw [after, isBoundary_head?_append_cons bounds, ih (by simp at short; omega),
          Bool.or_assoc]
      next => exact ih (Nat.zero_le _)

theorem containsIdentifier_append {name : String} (absent : x ∉ name.toList)
    (bounds : isBoundary (some x) = true) (left right : String) :
    containsIdentifier (left ++ String.singleton x ++ right) name =
      (containsIdentifier left name || containsIdentifier right name) := by
  by_cases nonempty : name = ""
  · subst nonempty
    rfl
  · have split : (left ++ String.singleton x ++ right).toList =
        left.toList ++ x :: right.toList := by simp
    simp only [containsIdentifier_eq nonempty, split]
    exact occursWholeFrom_append_cons (by simpa using nonempty) absent bounds (Nat.zero_le _) _

theorem containsIdentifier_intercalate {name : String} (absent : x ∉ name.toList)
    (bounds : isBoundary (some x) = true) (parts : List String) :
    containsIdentifier ((String.singleton x).intercalate parts) name =
      parts.any (containsIdentifier · name) := by
  induction parts with
  | nil => simp [containsIdentifier, occursWholeFrom]
  | cons first rest ih =>
    cases rest with
    | nil => simp
    | cons second rest =>
      rw [String.intercalate_cons_cons, containsIdentifier_append absent bounds, ih]
      simp only [List.any_cons]

end Separators

end SchemaMigration.Text
