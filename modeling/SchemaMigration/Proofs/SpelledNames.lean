import SchemaMigration.Naming.Entity
import SchemaMigration.Proofs.DashedNames
import SchemaMigration.Text.Identifier

set_option autoImplicit false

namespace SchemaMigration

namespace Character

theorem CaseMap.map_ne_nil {m : CaseMap} (several : ∀ entry ∈ m.several, entry.2 ≠ []) (c : Char) :
    m.map c ≠ [] := by
  rw [CaseMap.map]
  split
  next targets found =>
    obtain ⟨before, after, table, -⟩ := List.lookup_eq_some_iff.mp found
    have filled := several (c.toNat, targets) (by simp [table])
    simpa using filled
  next => split <;> simp

theorem lower_ne_nil (c : Char) : lower c ≠ [] :=
  CaseMap.map_ne_nil (by decide) c

theorem upper_ne_nil (c : Char) : upper c ≠ [] :=
  CaseMap.map_ne_nil (by decide) c

end Character

namespace Naming

open Character

def capitalized : List Char → List Char
  | [] => []
  | c :: rest => upper c ++ rest

def isOpen (last : Option Char) : Bool :=
  last.any fun c => !isPartSeparator c

-- How a name in capitals spells a character that stands between two others.
def spelledAs (previous : Option Char) (c : Char) (next : Option Char) : List Char :=
  if isPartSeparator c then []
  else if isOpen previous && !(isUpper c && startsWord previous next) then letters c
  else capitalized (letters c)

def spelledFrom (previous : Option Char) : List Char → List Char
  | [] => []
  | c :: rest => spelledAs previous c rest.head? ++ spelledFrom (some c) rest

theorem spelledAs_of_closed {previous : Option Char} (shut : isOpen previous = false) (c : Char)
    (next : Option Char) : spelledAs previous c next =
      if isPartSeparator c then [] else capitalized (letters c) := by
  simp [spelledAs, shut]

section Words

variable {word : List Char}

theorem pascalFrom_append (inside : Bool) (s t : List Char) :
    pascalFrom inside (s ++ t) =
      pascalFrom inside s ++ pascalFrom (s.getLast?.elim inside fun c => !isPartSeparator c) t := by
  induction s generalizing inside with
  | nil => rfl
  | cons c rest ih =>
    have last : (c :: rest).getLast?.elim inside (fun c => !isPartSeparator c) =
        rest.getLast?.elim (!isPartSeparator c) fun c => !isPartSeparator c := by
      cases rest <;> simp [List.getLast?_cons]
    rw [last, List.cons_append, pascalFrom, pascalFrom]
    by_cases separates : isPartSeparator c = true
    next => simp [separates, ih]
    next => cases inside <;> simp [separates, ih]

theorem pascalFrom_reverse_append (out t : List Char) :
    pascalFrom false (out.reverse ++ t) =
      pascalFrom false out.reverse ++ pascalFrom (isOpen out.head?) t := by
  rw [pascalFrom_append, List.getLast?_reverse]
  cases out.head? <;> rfl

theorem pascalFrom_word (plain : ∀ x ∈ word, isPartSeparator x = false) (inside : Bool) :
    pascalFrom inside word = if inside then word else capitalized word := by
  have later (rest : List Char) (others : ∀ x ∈ rest, isPartSeparator x = false) :
      pascalFrom true rest = rest := by
    induction rest with
    | nil => rfl
    | cons c rest ih =>
      obtain ⟨first, others⟩ := List.forall_mem_cons.mp others
      rw [pascalFrom, first, ih others]
      rfl
  cases word with
  | nil => cases inside <;> rfl
  | cons c rest =>
    obtain ⟨first, others⟩ := List.forall_mem_cons.mp plain
    rw [pascalFrom, first, later rest others]
    rfl

end Words

section Steps

variable {out : List Char} {previous next : Option Char} {c x : Char}

theorem isPartSeparator_of_isWordSeparator (separates : isWordSeparator c = true) :
    isPartSeparator c = true := by
  simp only [isWordSeparator, Bool.or_eq_true, beq_iff_eq] at separates
  rcases separates with (rfl | rfl) | rfl <;> rfl

theorem not_part_of_mem_lower (capital : isUpper c = true) (member : x ∈ lower c) :
    isPartSeparator x = false := by
  obtain ⟨plain, slash⟩ := not_separator_of_mem_lower capital member
  have dot : x ≠ '.' := ne_of_mem_lower capital member (by decide) (by decide)
  simp_all [isWordSeparator, isPartSeparator]

theorem not_part_of_isUpper (capital : isUpper c = true) : isPartSeparator c = false := by
  by_contra separates
  simp only [isPartSeparator, Bool.not_eq_false, Bool.or_eq_true, beq_iff_eq] at separates
  rcases separates with (((rfl | rfl) | rfl) | rfl) | rfl <;> cases capital

theorem letters_of_isUpper (capital : isUpper c = true) : letters c = lower c := by
  rw [letters, not_separator_of_isUpper capital, if_neg Bool.false_ne_true, if_pos capital]

theorem pascalFrom_addDash (out : List Char) :
    pascalFrom false (addDash out).reverse = pascalFrom false out.reverse ∧
      isOpen (addDash out).head? = false := by
  rcases out with _ | ⟨c, out⟩
  next => exact ⟨rfl, rfl⟩
  next =>
    rw [addDash]
    split
    next dash =>
      rw [beq_iff_eq.mp dash]
      exact ⟨rfl, rfl⟩
    next =>
      refine ⟨?_, rfl⟩
      rw [List.reverse_cons, pascalFrom_reverse_append]
      simp [pascalFrom, isPartSeparator]

theorem pascalFrom_addBoundary (out : List Char) :
    pascalFrom false (addBoundary out).reverse = pascalFrom false out.reverse ∧
      isOpen (addBoundary out).head? = false := by
  rcases out with _ | ⟨c, out⟩
  next => exact ⟨rfl, rfl⟩
  next =>
    by_cases slash : c = '/'
    next =>
      rw [slash]
      exact ⟨rfl, rfl⟩
    next =>
      have same : addBoundary (c :: out) = addDash (c :: out) := by
        simp [addBoundary, addDash, slash]
      rw [same]
      exact pascalFrom_addDash _

theorem pascalFrom_lowered (capital : isUpper c = true) (start : List Char) :
    pascalFrom false ((lower c).reverse ++ start).reverse = pascalFrom false start.reverse ++
        (if isOpen start.head? then lower c else capitalized (lower c)) ∧
      isOpen ((lower c).reverse ++ start).head? = isOpen (some c) := by
  constructor
  next =>
    rw [List.reverse_append, List.reverse_reverse, pascalFrom_reverse_append,
      pascalFrom_word fun x => not_part_of_mem_lower capital]
  next =>
    have filled := lower_ne_nil c
    have last := not_part_of_mem_lower capital (List.getLast_mem filled)
    rw [List.head?_append_of_ne_nil _ (by simpa using filled), List.head?_reverse,
      List.getLast?_eq_some_getLast filled]
    simp [isOpen, last, not_part_of_isUpper capital]

-- The end of the dashed text tells as well as that of the text itself whether a word goes on.
theorem pascalFrom_dashStep (agree : isOpen out.head? = isOpen previous) :
    pascalFrom false (dashStep out previous c next).reverse =
        pascalFrom false out.reverse ++ spelledAs previous c next ∧
      isOpen (dashStep out previous c next).head? = isOpen (some c) := by
  by_cases separates : isWordSeparator c = true
  next =>
    have part := isPartSeparator_of_isWordSeparator separates
    obtain ⟨same, closed⟩ := pascalFrom_addDash out
    rw [dashStep, if_pos separates, spelledAs, if_pos part, same, closed]
    simp [isOpen, part]
  next =>
    rw [dashStep, if_neg separates]
    by_cases capital : isUpper c = true
    next =>
      have plain := not_part_of_isUpper capital
      rw [if_pos capital, spelledAs, plain, if_neg Bool.false_ne_true, capital,
        letters_of_isUpper capital]
      by_cases starts : startsWord previous next = true
      next =>
        obtain ⟨same, closed⟩ := pascalFrom_addBoundary out
        have lowered := pascalFrom_lowered capital (addBoundary out)
        rw [same, closed] at lowered
        simpa [starts] using lowered
      next =>
        have lowered := pascalFrom_lowered capital out
        rw [agree] at lowered
        simpa [starts] using lowered
    next =>
      have own : letters c = [c] := by simp [letters, separates, capital]
      rw [if_neg capital, List.reverse_cons, pascalFrom_reverse_append, agree, spelledAs, own]
      refine ⟨?_, rfl⟩
      by_cases part : isPartSeparator c = true
      next => simp [pascalFrom, part]
      next => cases isOpen previous <;> simp [pascalFrom, part, capital, capitalized]

theorem pascalFrom_dashFrom (agree : isOpen out.head? = isOpen previous) (input : List Char) :
    pascalFrom false (dashFrom out previous input).reverse =
      pascalFrom false out.reverse ++ spelledFrom previous input := by
  induction input generalizing out previous with
  | nil => simp [dashFrom, spelledFrom]
  | cons c rest ih =>
    obtain ⟨spelled, agree'⟩ := pascalFrom_dashStep agree
    rw [dashFrom_cons, ih agree', spelled, spelledFrom, List.append_assoc]

end Steps

section Texts

theorem pascalFrom_dropWhile (text : List Char) :
    pascalFrom false (text.dropWhile (· == '-')) = pascalFrom false text :=
  eq_of_dropWhile_dash (fun _ => rfl) text

theorem pascalFrom_reverse_dropWhile (out : List Char) :
    pascalFrom false (out.dropWhile (· == '-')).reverse = pascalFrom false out.reverse := by
  induction out with
  | nil => rfl
  | cons c rest ih =>
    rw [List.dropWhile_cons]
    split
    next dash =>
      rw [ih, beq_iff_eq.mp dash, List.reverse_cons, pascalFrom_reverse_append]
      simp [pascalFrom, isPartSeparator]
    next => rfl

theorem pascalFrom_dashChars (text : List Char) :
    pascalFrom false (dashChars text) = spelledFrom none text := by
  have start : isOpen ([] : List Char).head? = isOpen none := rfl
  rw [dashChars, trimDashes, pascalFrom_dropWhile, pascalFrom_reverse_dropWhile,
    pascalFrom_dashFrom start]
  rfl

-- A slash ends a word, and what stands beside it counts for no case change.
theorem spelledFrom_append_slash (previous : Option Char) (s t : List Char) :
    spelledFrom previous (s ++ '/' :: t) = spelledFrom previous s ++ spelledFrom none t := by
  have after : spelledFrom (some '/') t = spelledFrom none t := by
    cases t with
    | nil => rfl
    | cons c rest =>
      rw [spelledFrom, spelledFrom, spelledAs_of_closed rfl, spelledAs_of_closed rfl]
  induction s generalizing previous with
  | nil =>
    change spelledAs previous '/' t.head? ++ spelledFrom (some '/') t = _
    rw [after]
    rfl
  | cons c rest ih =>
    have beside : spelledAs previous c (rest ++ '/' :: t).head? =
        spelledAs previous c rest.head? := by
      cases rest with
      | cons => rfl
      | nil =>
        have same : startsWord previous (some '/') = startsWord previous none := by
          cases previous <;> rfl
        rw [List.nil_append, List.head?_cons, List.head?_nil, spelledAs, same, spelledAs]
    rw [List.cons_append, spelledFrom, spelledFrom, beside, ih, List.append_assoc]

theorem pascalFrom_intercalate (steps : List (List Char)) :
    pascalFrom false (['/'].intercalate (steps.map dashChars)) =
      spelledFrom none (['/'].intercalate steps) := by
  induction steps with
  | nil => rfl
  | cons step rest ih =>
    by_cases empty : rest = []
    next => simpa [empty] using pascalFrom_dashChars step
    next =>
      have more : rest.map dashChars ≠ [] := by simpa using empty
      have slash (t : List Char) (inside : Bool) :
          pascalFrom inside ('/' :: t) = pascalFrom false t := rfl
      rw [List.map_cons, List.intercalate_cons_of_ne_nil more,
        List.intercalate_cons_of_ne_nil empty, List.append_assoc, List.append_assoc,
        List.singleton_append, List.singleton_append, pascalFrom_append, slash, ih,
        pascalFrom_dashChars, spelledFrom_append_slash]

end Texts

section Identifiers

variable {text suffix : List Char} {previous : Option Char} {c x : Char}

def startsIdentifier (c : Char) : Bool :=
  isAlphabetic c || c == '_' || c == '$'

theorem isIdentifierChar_of_startsIdentifier (starts : startsIdentifier c = true) :
    isIdentifierChar c = true := by
  simp only [startsIdentifier, isIdentifierChar, isAlphanumeric, Bool.or_eq_true] at starts ⊢
  tauto

theorem isIdentifier_ofList : Text.isIdentifier (String.ofList text) = true ↔
    text ≠ [] ∧ (∀ x, text.head? = some x → startsIdentifier x = true) ∧
      ∀ x ∈ text, isIdentifierChar x = true := by
  cases text with
  | nil => simp [Text.isIdentifier]
  | cons c rest =>
    have own : Text.isIdentifier (String.ofList (c :: rest)) =
        (startsIdentifier c && rest.all isIdentifierChar) := by
      simp [Text.isIdentifier, startsIdentifier]
    rw [own, Bool.and_eq_true, List.all_eq_true]
    constructor
    next =>
      rintro ⟨starts, chars⟩
      refine ⟨List.cons_ne_nil _ _, by simpa using starts, ?_⟩
      exact List.forall_mem_cons.mpr ⟨isIdentifierChar_of_startsIdentifier starts, chars⟩
    next =>
      rintro ⟨-, starts, chars⟩
      exact ⟨starts c rfl, (List.forall_mem_cons.mp chars).2⟩

theorem isIdentifier_append_iff (chars : ∀ x ∈ suffix, isIdentifierChar x = true)
    (starts : ∀ x, suffix.head? = some x → startsIdentifier x = true) :
    Text.isIdentifier (String.ofList (text ++ suffix)) = true ↔
      (∀ x ∈ text, isIdentifierChar x = true) ∧
        (∀ x, text.head? = some x → startsIdentifier x = true) ∧ (suffix = [] → text ≠ []) := by
  rw [isIdentifier_ofList]
  cases text with
  | nil =>
    rw [List.nil_append]
    constructor
    next =>
      rintro ⟨filled, -⟩
      exact ⟨by simp, by simp, fun empty => absurd empty filled⟩
    next =>
      rintro ⟨-, -, filled⟩
      exact ⟨fun empty => filled empty rfl, starts, chars⟩
  | cons c rest =>
    rw [List.forall_mem_append, and_iff_left chars]
    simp [and_comm]

theorem letters_ne_nil (plain : isPartSeparator c = false) : letters c ≠ [] := by
  rw [letters]
  split
  next separates => simp [isPartSeparator_of_isWordSeparator separates] at plain
  next =>
    split
    next => exact lower_ne_nil c
    next => exact List.cons_ne_nil _ _

theorem capitalized_ne_nil {word : List Char} (filled : word ≠ []) : capitalized word ≠ [] := by
  obtain ⟨c, rest, rfl⟩ := List.exists_cons_of_ne_nil filled
  simp [capitalized, upper_ne_nil]

theorem spelledAs_eq_nil_iff {next : Option Char} :
    spelledAs previous c next = [] ↔ isPartSeparator c = true := by
  constructor
  next =>
    intro empty
    by_contra plain
    have filled := letters_ne_nil (by simpa using plain)
    rw [spelledAs, if_neg plain] at empty
    split at empty
    next => exact filled empty
    next => exact capitalized_ne_nil filled empty
  next => exact fun separates => if_pos separates

theorem mem_spelledFrom : x ∈ spelledFrom previous text ↔
    ∃ before c after, text = before ++ c :: after ∧
      x ∈ spelledAs (before.getLast?.or previous) c after.head? := by
  induction text generalizing previous with
  | nil => simp [spelledFrom]
  | cons d rest ih =>
    rw [spelledFrom, List.mem_append, ih]
    constructor
    next =>
      rintro (here | ⟨before, c, after, rfl, later⟩)
      next => exact ⟨[], d, rest, rfl, here⟩
      next => exact ⟨d :: before, c, after, rfl, by simpa [List.getLast?_cons] using later⟩
    next =>
      rintro ⟨_ | ⟨_, before⟩, c, after, split, member⟩
      next =>
        obtain ⟨rfl, rfl⟩ := List.cons.inj split
        exact .inl member
      next =>
        obtain ⟨rfl, rfl⟩ := List.cons.inj split
        exact .inr ⟨before, c, after, rfl, by simpa [List.getLast?_cons] using member⟩

theorem spelledFrom_eq_nil_iff :
    spelledFrom previous text = [] ↔ ∀ c ∈ text, isPartSeparator c = true := by
  induction text generalizing previous with
  | nil => simp [spelledFrom]
  | cons c rest ih => simp [spelledFrom, spelledAs_eq_nil_iff, ih]

theorem head?_spelledFrom (shut : isOpen previous = false) :
    (spelledFrom previous text).head? = some x ↔
      ∃ before c after, text = before ++ c :: after ∧
        (∀ b ∈ before, isPartSeparator b = true) ∧ isPartSeparator c = false ∧
        (capitalized (letters c)).head? = some x := by
  induction text generalizing previous with
  | nil => simp [spelledFrom]
  | cons d rest ih =>
    rw [spelledFrom]
    by_cases separates : isPartSeparator d = true
    next =>
      have closed : isOpen (some d) = false := by simp [isOpen, separates]
      rw [spelledAs_eq_nil_iff.mpr separates, List.nil_append, ih closed]
      constructor
      next =>
        rintro ⟨before, c, after, rfl, others, plain⟩
        exact ⟨d :: before, c, after, rfl, List.forall_mem_cons.mpr ⟨separates, others⟩, plain⟩
      next =>
        rintro ⟨_ | ⟨_, before⟩, c, after, split, others, plain⟩
        next =>
          obtain ⟨rfl, -⟩ := List.cons.inj split
          simp [separates] at plain
        next =>
          obtain ⟨rfl, rfl⟩ := List.cons.inj split
          exact ⟨before, c, after, rfl, (List.forall_mem_cons.mp others).2, plain⟩
    next =>
      have plain : isPartSeparator d = false := by simpa using separates
      have filled := capitalized_ne_nil (letters_ne_nil plain)
      rw [spelledAs_of_closed shut, if_neg separates, List.head?_append_of_ne_nil _ filled]
      constructor
      next => exact fun first => ⟨[], d, rest, rfl, by simp, plain, first⟩
      next =>
        rintro ⟨_ | ⟨_, before⟩, c, after, split, others, -, first⟩
        next =>
          obtain ⟨rfl, -⟩ := List.cons.inj split
          exact first
        next =>
          obtain ⟨rfl, -⟩ := List.cons.inj split
          exact absurd (others d List.mem_cons_self) separates

structure SpellsIdentifier (text : List Char) : Prop where
  chars : ∀ before c after, text = before ++ c :: after →
    ∀ x ∈ spelledAs before.getLast? c after.head?, isIdentifierChar x = true
  start : ∀ before c after, text = before ++ c :: after →
    (∀ b ∈ before, isPartSeparator b = true) → isPartSeparator c = false →
    ∀ x, (capitalized (letters c)).head? = some x → startsIdentifier x = true

theorem isIdentifier_spelled_iff (chars : ∀ x ∈ suffix, isIdentifierChar x = true)
    (starts : ∀ x, suffix.head? = some x → startsIdentifier x = true) :
    Text.isIdentifier (String.ofList (spelledFrom none text ++ suffix)) = true ↔
      SpellsIdentifier text ∧ (suffix = [] → ∃ c ∈ text, isPartSeparator c = false) := by
  have filled : spelledFrom none text ≠ [] ↔ ∃ c ∈ text, isPartSeparator c = false := by
    rw [Ne, spelledFrom_eq_nil_iff]
    simp
  rw [isIdentifier_append_iff chars starts, filled, ← and_assoc]
  refine and_congr_left fun _ => ⟨?_, ?_⟩
  next =>
    rintro ⟨chars, start⟩
    constructor
    next =>
      intro before c after split x member
      exact chars x (mem_spelledFrom.mpr ⟨before, c, after, split, by simpa using member⟩)
    next =>
      intro before c after split others plain x first
      exact start x ((head?_spelledFrom rfl).mpr ⟨before, c, after, split, others, plain, first⟩)
  next =>
    rintro ⟨chars, start⟩
    constructor
    next =>
      intro x member
      obtain ⟨before, c, after, split, spelled⟩ := mem_spelledFrom.mp member
      exact chars before c after split x (by simpa using spelled)
    next =>
      intro x first
      obtain ⟨before, c, after, split, others, plain, own⟩ := (head?_spelledFrom rfl).mp first
      exact start before c after split others plain x own

end Identifiers

end Naming

end SchemaMigration
