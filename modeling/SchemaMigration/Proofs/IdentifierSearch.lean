import SchemaMigration.Proofs.Identifiers
import SchemaMigration.Text.Bytes

set_option autoImplicit false

namespace SchemaMigration.Text

def findBytes? (ident : List Char) : List Char → Option Nat
  | [] => if ident.isEmpty then some 0 else none
  | c :: rest =>
    if ident.isPrefixOf (c :: rest) then some 0
    else (findBytes? ident rest).map (c.utf8Size + ·)

inductive SearchRound where
  | absent
  | found
  | rejected (next : Nat)

-- The next occurrence from a byte position on, and whether it stands between boundaries. There is
-- no answer if a cut would fall inside a character.
def searchRound? (text ident : List Char) (start : Nat) : Option SearchRound := do
  let (_, rest) ← splitBytes? start text
  match findBytes? ident rest with
  | none => return .absent
  | some position =>
    let first := start + position
    let last := first + byteLength ident
    let (before, _) ← splitBytes? first text
    let (_, after) ← splitBytes? last text
    return if isBoundary before.getLast? && isBoundary after.head? then .found else .rejected last

inductive Search (text ident : List Char) : Nat → Bool → Prop
  | absent {start : Nat} (round : searchRound? text ident start = some .absent) :
      Search text ident start false
  | found {start : Nat} (round : searchRound? text ident start = some .found) :
      Search text ident start true
  | rejected {start next : Nat} {answer : Bool}
      (round : searchRound? text ident start = some (.rejected next))
      (later : Search text ident next answer) : Search text ident start answer

def WholeAt (text ident : List Char) (position : Nat) : Prop :=
  ∃ before after, text = before ++ (ident ++ after) ∧ byteLength before = position ∧
    isBoundary before.getLast? = true ∧ isBoundary after.head? = true

open Character

variable {text ident : List Char}

section Rounds

variable {before rest : List Char} {start : Nat}

theorem findBytes?_eq_none (filled : ident ≠ []) (missing : findBytes? ident rest = none)
    (front back : List Char) : rest ≠ front ++ (ident ++ back) := by
  induction rest generalizing front with
  | nil => simp [filled]
  | cons c rest ih =>
    rw [findBytes?] at missing
    split at missing
    next => cases missing
    next unlike =>
      rintro whole
      rcases front with _ | ⟨d, front⟩
      next => exact unlike (List.isPrefixOf_iff_prefix.mpr ⟨back, whole.symm⟩)
      next =>
        obtain ⟨-, split⟩ := List.cons.inj whole
        exact ih (Option.map_eq_none_iff.mp missing) front split

theorem findBytes?_eq_some {position : Nat} (found : findBytes? ident rest = some position) :
    ∃ front back, rest = front ++ (ident ++ back) ∧ byteLength front = position ∧
      ∀ other after, rest = other ++ (ident ++ after) → front.length ≤ other.length := by
  induction rest generalizing position with
  | nil =>
    rw [findBytes?] at found
    split at found
    next empty =>
      obtain rfl := Option.some.inj found
      exact ⟨[], [], by simpa using empty, rfl, by simp⟩
    next => cases found
  | cons c rest ih =>
    rw [findBytes?] at found
    split at found
    next here =>
      obtain ⟨back, whole⟩ := List.isPrefixOf_iff_prefix.mp here
      obtain rfl := Option.some.inj found
      exact ⟨[], back, whole.symm, rfl, by simp⟩
    next unlike =>
      obtain ⟨later, there, rfl⟩ := Option.map_eq_some_iff.mp found
      obtain ⟨front, back, rfl, size, least⟩ := ih there
      refine ⟨c :: front, back, rfl, by simp [size], ?_⟩
      intro other after whole
      rcases other with _ | ⟨d, other⟩
      next => exact absurd (List.isPrefixOf_iff_prefix.mpr ⟨after, whole.symm⟩) unlike
      next =>
        obtain ⟨-, split⟩ := List.cons.inj whole
        exact Nat.succ_le_succ (least other after split)

theorem searchRound?_cases (ident before rest : List Char) :
    findBytes? ident rest = none ∧
        searchRound? (before ++ rest) ident (byteLength before) = some .absent ∨
      ∃ front back, rest = front ++ (ident ++ back) ∧
        (∀ other after, rest = other ++ (ident ++ after) → front.length ≤ other.length) ∧
        searchRound? (before ++ rest) ident (byteLength before) =
          some (if isBoundary (before ++ front).getLast? && isBoundary back.head? then .found
            else .rejected (byteLength (before ++ (front ++ ident)))) := by
  have cut := splitBytes?_byteLength_append before rest
  cases found : findBytes? ident rest with
  | none => exact .inl ⟨rfl, by simp [searchRound?, cut, found]⟩
  | some position =>
    obtain ⟨front, back, rfl, rfl, least⟩ := findBytes?_eq_some found
    refine .inr ⟨front, back, rfl, least, ?_⟩
    have first := splitBytes?_byteLength_append (before ++ front) (ident ++ back)
    have last := splitBytes?_byteLength_append (before ++ (front ++ ident)) back
    simp only [byteLength_append, List.append_assoc] at first last ⊢
    simp [searchRound?, cut, found, first, last, Nat.add_assoc]

end Rounds

section Positions

theorem byteLength_pos {s : List Char} (filled : s ≠ []) : 0 < byteLength s := by
  obtain ⟨c, rest, rfl⟩ := List.exists_cons_of_ne_nil filled
  have size := c.utf8Size_pos
  rw [byteLength_cons]
  omega

theorem prefix_of_byteLength_le {s t : List Char} (first : s <+: text) (second : t <+: text)
    (le : byteLength s ≤ byteLength t) : s <+: t := by
  rcases List.prefix_or_prefix_of_prefix first second with done | ⟨more, rfl⟩
  next => exact done
  next =>
    have empty : more = [] := by
      by_contra filled
      have size := byteLength_pos filled
      rw [byteLength_append] at le
      omega
    simp [empty]

theorem occursWhole_iff_wholeAt :
    OccursWhole text ident ↔ ∃ position, WholeAt text ident position := by
  constructor
  next =>
    rintro ⟨before, after, rfl, bounds⟩
    exact ⟨_, before, after, List.append_assoc _ _ _, rfl, bounds⟩
  next =>
    rintro ⟨_, before, after, rfl, -, bounds⟩
    exact ⟨before, after, (List.append_assoc _ _ _).symm, bounds⟩

theorem WholeAt.exists_of_le {before rest : List Char} {position : Nat}
    (whole : WholeAt (before ++ rest) ident position) (le : byteLength before ≤ position) :
    ∃ other after, rest = other ++ (ident ++ after) ∧
      byteLength (before ++ other) = position ∧
      isBoundary (before ++ other).getLast? = true ∧ isBoundary after.head? = true := by
  obtain ⟨front, after, split, rfl, bounds⟩ := whole
  have inside : before <+: front :=
    prefix_of_byteLength_le (List.prefix_append before rest) ⟨ident ++ after, split.symm⟩ le
  obtain ⟨other, rfl⟩ := inside
  rw [List.append_assoc, List.append_right_inj] at split
  exact ⟨other, after, split, rfl, bounds⟩

end Positions

section Runs

variable {start : Nat}

def SearchRound.Tells (text ident : List Char) (start : Nat) : SearchRound → Prop
  | .absent => ∀ position, start ≤ position → ¬WholeAt text ident position
  | .found => ∃ position, start ≤ position ∧ WholeAt text ident position
  | .rejected next =>
    start < next ∧ ∀ position, start ≤ position → WholeAt text ident position → next ≤ position

theorem tells_rejected (filled : ident ≠ []) (chars : ∀ c ∈ ident, isIdentifierChar c = true)
    {before front back : List Char}
    (least : ∀ other after, front ++ (ident ++ back) = other ++ (ident ++ after) →
      front.length ≤ other.length)
    (refused : ¬(isBoundary (before ++ front).getLast? && isBoundary back.head?) = true) :
    SearchRound.Tells (before ++ (front ++ (ident ++ back))) ident (byteLength before)
      (.rejected (byteLength (before ++ (front ++ ident)))) := by
  have size := byteLength_pos filled
  refine ⟨by simp only [byteLength_append]; omega, ?_⟩
  intro position le whole
  obtain ⟨other, after, split, rfl, leads, ends⟩ := whole.exists_of_le le
  obtain ⟨gap, rfl⟩ : front <+: other :=
    List.prefix_of_prefix_length_le (List.prefix_append front _) ⟨_, split.symm⟩
      (least other after split)
  rw [List.append_assoc, List.append_right_inj] at split
  by_cases moved : gap = []
  next =>
    -- It would be the occurrence that was rejected.
    subst moved
    rw [List.append_nil] at leads
    rw [List.nil_append, List.append_right_inj] at split
    subst split
    exact absurd (Bool.and_eq_true_iff.mpr ⟨leads, ends⟩) refused
  next =>
    rw [← List.append_assoc, List.getLast?_append_of_ne_nil _ moved] at leads
    have found : ident <+: gap ++ (ident ++ after) := ⟨back, split⟩
    have far := length_le_of_isBoundary chars found moved leads
    obtain ⟨more, rfl⟩ :=
      List.prefix_of_prefix_length_le found (List.prefix_append gap (ident ++ after)) far
    simp only [byteLength_append]
    omega

theorem searchRound?_tells (filled : ident ≠ []) (chars : ∀ c ∈ ident, isIdentifierChar c = true)
    {round : SearchRound} (ends : searchRound? text ident start = some round) :
    round.Tells text ident start := by
  obtain ⟨⟨before, rest⟩, cut, -⟩ := Option.bind_eq_some_iff.mp ends
  obtain ⟨rfl, rfl⟩ := append_of_splitBytes? cut
  rcases searchRound?_cases ident before rest with ⟨missing, same⟩ | ⟨front, back, rfl, least, same⟩
  next =>
    obtain rfl := Option.some.inj (same.symm.trans ends)
    intro position le whole
    obtain ⟨other, after, split, -⟩ := whole.exists_of_le le
    exact findBytes?_eq_none filled missing other after split
  next =>
    obtain rfl := Option.some.inj (same.symm.trans ends)
    split
    next bounds =>
      have sizes : byteLength before ≤ byteLength (before ++ front) := by
        rw [byteLength_append]
        omega
      rw [Bool.and_eq_true] at bounds
      exact ⟨_, sizes, before ++ front, back, by simp, rfl, bounds⟩
    next refused => exact tells_rejected filled chars least refused

theorem Search.answer_iff (filled : ident ≠ []) (chars : ∀ c ∈ ident, isIdentifierChar c = true)
    {answer : Bool} (search : Search text ident start answer) :
    answer = true ↔ ∃ position, start ≤ position ∧ WholeAt text ident position := by
  induction search with
  | absent round =>
    have none := searchRound?_tells filled chars round
    refine iff_of_false Bool.false_ne_true ?_
    rintro ⟨position, le, whole⟩
    exact none position le whole
  | found round =>
    have whole := searchRound?_tells filled chars round
    exact iff_of_true rfl whole
  | rejected round _ ih =>
    obtain ⟨forward, kept⟩ := searchRound?_tells filled chars round
    rw [ih]
    constructor
    next =>
      rintro ⟨position, le, whole⟩
      exact ⟨position, by omega, whole⟩
    next =>
      rintro ⟨position, le, whole⟩
      exact ⟨position, kept position le whole, whole⟩

-- Each round that rejects leaves less of the text, by at least the identifier.
theorem exists_search (filled : ident ≠ []) (before rest : List Char) :
    ∃ answer, Search (before ++ rest) ident (byteLength before) answer := by
  induction left : rest.length using Nat.strongRecOn generalizing before rest with
  | ind n ih =>
    rcases searchRound?_cases ident before rest with ⟨-, round⟩ | ⟨front, back, rfl, -, round⟩
    next => exact ⟨false, .absent round⟩
    next =>
      split at round
      next => exact ⟨true, .found round⟩
      next =>
        have less : back.length < n := by
          have size := List.length_pos_iff.mpr filled
          simp only [List.length_append] at left
          omega
        obtain ⟨answer, later⟩ := ih back.length less (before ++ (front ++ ident)) back rfl
        rw [List.append_assoc, List.append_assoc] at later
        exact ⟨answer, .rejected round later⟩

theorem containsIdentifier_exact (text ident : String) (nonempty : ident ≠ "")
    (chars : ∀ c ∈ ident.toList, isIdentifierChar c = true) :
    (containsIdentifier text ident = true ↔ OccursWhole text.toList ident.toList) ∧
      (∀ answer, Search text.toList ident.toList 0 answer ↔
        answer = containsIdentifier text ident) ∧
      ∀ start next, searchRound? text.toList ident.toList start = some (.rejected next) →
        start < next ∧ ∀ position, start ≤ position →
          WholeAt text.toList ident.toList position → next ≤ position := by
  have filled : ident.toList ≠ [] := by simpa using nonempty
  have occurs : containsIdentifier text ident = true ↔ OccursWhole text.toList ident.toList :=
    containsIdentifier_iff nonempty chars
  have agrees {answer : Bool} (search : Search text.toList ident.toList 0 answer) :
      answer = containsIdentifier text ident := by
    rw [Bool.eq_iff_iff, search.answer_iff filled chars, occurs, occursWhole_iff_wholeAt]
    simp
  refine ⟨occurs, fun answer => ⟨agrees, ?_⟩, fun start next => searchRound?_tells filled chars⟩
  rintro rfl
  obtain ⟨answer, search⟩ := exists_search filled [] text.toList
  exact agrees search ▸ search

theorem containsIdentifier_exact_overlapping :
    containsIdentifier "aaa é.aaé aa" "aa" = true ∧
      OccursWhole "aaa é.aaé aa".toList "aa".toList ∧
      Search "aaa é.aaé aa".toList "aa".toList 0 true := by
  have chars : ∀ c ∈ "aa".toList, isIdentifierChar c = true :=
    List.all_eq_true.mp (by decide +kernel)
  obtain ⟨occurs, search, -⟩ := containsIdentifier_exact "aaa é.aaé aa" "aa" (by decide) chars
  have found : containsIdentifier "aaa é.aaé aa" "aa" = true := by decide +kernel
  exact ⟨found, occurs.mp found, (search true).mpr found.symm⟩

end Runs

end SchemaMigration.Text
