import Mathlib.Data.List.Chain
import SchemaMigration.Naming.Dasherize
import SchemaMigration.Proofs.SpecifierPatterns

set_option autoImplicit false

namespace SchemaMigration

namespace Character

theorem CaseMap.mem_map {m : CaseMap} {bound : Nat} {c x : Char}
    (several : ∀ entry ∈ m.several, ∀ n ∈ entry.2, bound ≤ n)
    (shifts : ∀ s ∈ m.shifts, (bound : Int) ≤ s.first + s.offset) (member : x ∈ m.map c) :
    x = c ∨ ∃ n, bound ≤ n ∧ x = Char.ofNat n := by
  rw [CaseMap.map] at member
  split at member
  next targets found =>
    obtain ⟨n, listed, rfl⟩ := List.mem_map.mp member
    obtain ⟨before, after, table, -⟩ := List.lookup_eq_some_iff.mp found
    have entry : (c.toNat, targets) ∈ m.several := by simp [table]
    exact .inr ⟨n, several _ entry n listed, rfl⟩
  next =>
    split at member
    next s found =>
      have first : s.first ≤ c.toNat := by
        have covered := List.find?_some found
        simp only [Shift.covers, Bool.and_eq_true, decide_eq_true_eq] at covered
        exact covered.1.1
      have far := shifts s (List.mem_of_find?_eq_some found)
      refine .inr ⟨s.apply c.toNat, ?_, List.mem_singleton.mp member⟩
      rw [Shift.apply]
      omega
    next => exact .inl (List.mem_singleton.mp member)

theorem mem_lower {c x : Char} (member : x ∈ lower c) : x = c ∨ x.toNat = 0 ∨ 97 ≤ x.toNat := by
  have several : ∀ entry ∈ toLowerCase.several, ∀ n ∈ entry.2, 97 ≤ n := by decide
  have shifts : ∀ s ∈ toLowerCase.shifts, ((97 : Nat) : Int) ≤ s.first + s.offset := by
    decide +kernel
  rcases CaseMap.mem_map several shifts member with same | ⟨n, large, rfl⟩
  next => exact .inl same
  next =>
    by_cases valid : n.isValidChar
    next =>
      have own : Char.ofNat n = Char.ofNatAux n valid := dif_pos valid
      rw [own]
      exact .inr (.inr large)
    next =>
      have zero : Char.ofNat n = '\x00' := dif_neg valid
      exact .inr (.inl (by rw [zero]; rfl))

end Character

namespace Naming

open Character

def LowersFully (text : List Char) : Prop :=
  ∀ c ∈ text, isUpper c = true → ∀ x ∈ lower c, isUpper x = false

instance (text : List Char) : Decidable (LowersFully text) :=
  decidable_of_iff
    (text.all fun c => !isUpper c || (lower c).all fun x => !isUpper x) <| by
      simp [LowersFully, or_iff_not_imp_left]

theorem ne_of_mem_lower {c x other : Char} (capital : isUpper c = true) (member : x ∈ lower c)
    (plain : isUpper other = false) (low : other.toNat ≠ 0 ∧ other.toNat < 97) : x ≠ other := by
  rintro rfl
  rcases mem_lower member with rfl | zero | large
  next => simp [plain] at capital
  next => exact low.1 zero
  next => omega

theorem not_separator_of_mem_lower {c x : Char} (capital : isUpper c = true)
    (member : x ∈ lower c) : isWordSeparator x = false ∧ x ≠ '/' := by
  have underscore : x ≠ '_' := ne_of_mem_lower capital member (by decide) (by decide)
  have space : x ≠ ' ' := ne_of_mem_lower capital member (by decide) (by decide)
  have dash : x ≠ '-' := ne_of_mem_lower capital member (by decide) (by decide)
  have slash : x ≠ '/' := ne_of_mem_lower capital member (by decide) (by decide)
  exact ⟨by simp [isWordSeparator, underscore, space, dash], slash⟩

section Steps

variable {out next input : List Char} {previous : Option Char} {c x : Char}

-- What one more character turns a text into that is kept backwards.
inductive Adds (out : List Char) (c : Char) : List Char → Prop
  | separator (separates : isWordSeparator c = true) : Adds out c (addDash out)
  | capital {start : List Char} (capital : isUpper c = true)
      (started : start = out ∨ start = addDash out) : Adds out c ((lower c).reverse ++ start)
  | same (plain : isWordSeparator c = false) (small : isUpper c = false) : Adds out c (c :: out)

theorem addBoundary_cases (out : List Char) :
    addBoundary out = out ∨ addBoundary out = addDash out := by
  rcases out with _ | ⟨c, out⟩
  next => exact .inl rfl
  next =>
    by_cases dash : c = '-' <;> by_cases slash : c = '/' <;>
      simp [addBoundary, addDash, dash, slash]

def dashStep (out : List Char) (previous : Option Char) (c : Char) (next : Option Char) :
    List Char :=
  if isWordSeparator c then addDash out
  else if isUpper c then
    (lower c).reverse ++ (if startsWord previous next then addBoundary out else out)
  else c :: out

theorem dashFrom_cons (out : List Char) (previous : Option Char) (c : Char) (rest : List Char) :
    dashFrom out previous (c :: rest) =
      dashFrom (dashStep out previous c rest.head?) (some c) rest := rfl

theorem adds_dashStep (out : List Char) (previous : Option Char) (c : Char)
    (following : Option Char) : Adds out c (dashStep out previous c following) := by
  rw [dashStep]
  split
  next separates => exact .separator separates
  next separates =>
    split
    next capital =>
      apply Adds.capital capital
      split
      next => exact addBoundary_cases out
      next => exact .inl rfl
    next capital => exact .same (by simpa using separates) (by simpa using capital)

theorem mem_addDash (member : x ∈ addDash out) : x ∈ out ∨ x = '-' := by
  rcases out with _ | ⟨c, out⟩
  next => exact .inl member
  next =>
    rw [addDash] at member
    split at member
    next => exact .inl member
    next => exact (List.mem_cons.mp member).symm

def IsFrom (input : List Char) (x : Char) : Prop :=
  x = '-' ∨ x ∈ input ∧ isWordSeparator x = false ∧ isUpper x = false ∨
    ∃ c ∈ input, isUpper c = true ∧ x ∈ lower c

theorem Adds.isFrom (adds : Adds out c next) (member : x ∈ next) : x ∈ out ∨ IsFrom [c] x := by
  cases adds with
  | separator => exact (mem_addDash member).imp_right .inl
  | capital capital started =>
    rcases List.mem_append.mp member with lowered | old
    next => exact .inr (.inr (.inr ⟨c, by simp, capital, List.mem_reverse.mp lowered⟩))
    next =>
      rcases started with rfl | rfl
      next => exact .inl old
      next => exact (mem_addDash old).imp_right .inl
  | same plain small =>
    rcases List.mem_cons.mp member with rfl | old
    next => exact .inr (.inr (.inl ⟨by simp, plain, small⟩))
    next => exact .inl old

theorem IsFrom.mono {more : List Char} (subset : input ⊆ more) (isFrom : IsFrom input x) :
    IsFrom more x := by
  rcases isFrom with dash | ⟨member, kept⟩ | ⟨c, member, lowered⟩
  next => exact .inl dash
  next => exact .inr (.inl ⟨subset member, kept⟩)
  next => exact .inr (.inr ⟨c, subset member, lowered⟩)

theorem isFrom_of_mem_dashFrom (member : x ∈ dashFrom out previous input) :
    x ∈ out ∨ IsFrom input x := by
  induction input generalizing out previous with
  | nil => exact .inl member
  | cons c rest ih =>
    rw [dashFrom_cons] at member
    rcases ih member with taken | later
    next => exact ((adds_dashStep out previous c _).isFrom taken).imp_right (·.mono (by simp))
    next => exact .inr (later.mono (by simp))

def HasSingleDashes (text : List Char) : Prop :=
  text.IsChain fun a b => ¬(a = '-' ∧ b = '-')

theorem HasSingleDashes.reverse {text : List Char} (single : HasSingleDashes text) :
    HasSingleDashes text.reverse :=
  List.isChain_reverse.mpr (single.imp fun _ _ apart both => apart both.symm)

-- What holds of a text all along, before the dashes at its end are cut off.
structure IsDashing (out : List Char) : Prop where
  single : HasSingleDashes out
  first : out.getLast? ≠ some '-'

theorem IsDashing.cons (dashing : IsDashing out) (other : x ≠ '-') : IsDashing (x :: out) := by
  constructor
  next => exact dashing.single.cons fun _ _ both => other both.1
  next =>
    rcases out with _ | ⟨c, out⟩
    next => simpa using other
    next => simpa using dashing.first

theorem IsDashing.append {letters : List Char} (dashing : IsDashing out)
    (other : ∀ x ∈ letters, x ≠ '-') : IsDashing (letters ++ out) := by
  induction letters with
  | nil => exact dashing
  | cons x more ih =>
    have rest : ∀ y ∈ more, y ≠ '-' := fun y member => other y (List.mem_cons_of_mem x member)
    exact (ih rest).cons (other x (by simp))

theorem IsDashing.addDash (dashing : IsDashing out) : IsDashing (addDash out) := by
  rcases out with _ | ⟨c, out⟩
  next => exact dashing
  next =>
    rw [Naming.addDash]
    split
    next => exact dashing
    next other =>
      constructor
      next =>
        refine dashing.single.cons ?_
        rintro y ⟨⟩ ⟨-, dash⟩
        exact other (beq_iff_eq.mpr dash)
      next => simpa using dashing.first

theorem Adds.isDashing (adds : Adds out c next) (dashing : IsDashing out) : IsDashing next := by
  cases adds with
  | separator => exact dashing.addDash
  | @capital start capital started =>
    have begun : IsDashing start := by
      rcases started with rfl | rfl
      next => exact dashing
      next => exact dashing.addDash
    apply begun.append
    rintro x member rfl
    have plain := (not_separator_of_mem_lower capital (List.mem_reverse.mp member)).1
    cases plain
  | same plain =>
    apply dashing.cons
    rintro rfl
    cases plain

theorem isDashing_dashFrom (dashing : IsDashing out) : IsDashing (dashFrom out previous input) := by
  induction input generalizing out previous with
  | nil => exact dashing
  | cons c rest ih =>
    rw [dashFrom_cons]
    exact ih ((adds_dashStep out previous c _).isDashing dashing)

end Steps

structure IsDashed (text : List Char) : Prop where
  single : HasSingleDashes text
  first : text.head? ≠ some '-'
  last : text.getLast? ≠ some '-'

section Texts

variable {input text : List Char} {x : Char}

theorem dropWhile_dash (other : text.head? ≠ some '-') : text.dropWhile (· == '-') = text :=
  dropWhile_eq_iff.mpr ⟨other, 0, by simp⟩

theorem IsDashing.of_append {front out : List Char} (dashing : IsDashing (front ++ out))
    (filled : out ≠ []) : IsDashing out where
  single := dashing.single.suffix (List.suffix_append front out)
  first := by simpa [List.getLast?_append_of_ne_nil front filled] using dashing.first

theorem isDashed_dashChars (input : List Char) : IsDashed (dashChars input) := by
  have dashing : IsDashing (dashFrom [] none input) := isDashing_dashFrom ⟨.nil, by simp⟩
  rw [dashChars, trimDashes]
  generalize same : (dashFrom [] none input).dropWhile (· == '-') = kept
  obtain ⟨last, n, whole⟩ := dropWhile_eq_iff.mp same
  rw [whole] at dashing
  by_cases empty : kept = []
  next =>
    subst empty
    exact ⟨.nil, by simp, by simp⟩
  next =>
    have rest := dashing.of_append empty
    have turned : kept.reverse.head? ≠ some '-' := by simpa using rest.first
    rw [dropWhile_dash turned]
    exact ⟨rest.single.reverse, turned, by simpa using last⟩

theorem isFrom_of_mem_dashChars (member : x ∈ dashChars input) : IsFrom input x := by
  have kept : x ∈ dashFrom [] none input := by
    have inside := (List.dropWhile_suffix _).subset member
    exact (List.dropWhile_suffix _).subset (List.mem_reverse.mp inside)
  rcases isFrom_of_mem_dashFrom kept with none | isFrom
  next => cases none
  next => exact isFrom

theorem isUpper_of_mem_dashChars (lowers : LowersFully input) (member : x ∈ dashChars input) :
    isUpper x = false := by
  rcases isFrom_of_mem_dashChars member with rfl | ⟨-, -, small⟩ | ⟨c, listed, capital, lowered⟩
  next => decide
  next => exact small
  next => exact lowers c listed capital x lowered

theorem addDash_of_isDashing {out : List Char} (dashing : IsDashing ('-' :: out)) :
    addDash out = '-' :: out := by
  rcases out with _ | ⟨c, out⟩
  next => exact absurd rfl dashing.first
  next =>
    have other : c ≠ '-' := fun dash => dashing.single.rel ⟨rfl, dash⟩
    simp [addDash, other]

theorem dashFrom_of_isDashing {out : List Char} (dashing : IsDashing (text.reverse ++ out))
    (joined : ∀ c ∈ text, c ≠ '_' ∧ c ≠ ' ') (small : ∀ c ∈ text, isUpper c = false)
    (previous : Option Char) : dashFrom out previous text = text.reverse ++ out := by
  induction text generalizing out previous with
  | nil => rfl
  | cons c rest ih =>
    rw [List.reverse_cons, List.append_assoc, List.singleton_append] at dashing ⊢
    have kept : dashStep out previous c rest.head? = c :: out := by
      have adds := adds_dashStep out previous c rest.head?
      generalize dashStep out previous c rest.head? = next at adds
      cases adds with
      | separator separates =>
        have dash : c = '-' := by simpa [isWordSeparator, joined c] using separates
        subst dash
        exact addDash_of_isDashing (dashing.of_append (List.cons_ne_nil _ _))
      | capital capital => simp [small c] at capital
      | same => rfl
    rw [dashFrom_cons, kept]
    exact ih dashing (fun x member => joined x (List.mem_cons_of_mem c member))
      (fun x member => small x (List.mem_cons_of_mem c member)) (some c)

theorem dashChars_of_isDashed (dashed : IsDashed text) (joined : ∀ c ∈ text, c ≠ '_' ∧ c ≠ ' ')
    (small : ∀ c ∈ text, isUpper c = false) : dashChars text = text := by
  have dashing : IsDashing (text.reverse ++ []) := by
    rw [List.append_nil]
    exact ⟨dashed.single.reverse, by simpa using dashed.first⟩
  have last : text.reverse.head? ≠ some '-' := by simpa using dashed.last
  rw [dashChars, dashFrom_of_isDashing dashing joined small, List.append_nil, trimDashes,
    dropWhile_dash last, List.reverse_reverse, dropWhile_dash dashed.first]

theorem joined_of_mem_dashChars (member : x ∈ dashChars input) : x ≠ '_' ∧ x ≠ ' ' := by
  rcases isFrom_of_mem_dashChars member with rfl | ⟨-, plain, -⟩ | ⟨c, -, capital, lowered⟩
  next => decide
  next => simp_all [isWordSeparator]
  next =>
    have plain := (not_separator_of_mem_lower capital lowered).1
    simp_all [isWordSeparator]

theorem dashChars_dashChars (lowers : LowersFully input) :
    dashChars (dashChars input) = dashChars input :=
  dashChars_of_isDashed (isDashed_dashChars input) (fun _ => joined_of_mem_dashChars)
    fun _ => isUpper_of_mem_dashChars lowers

theorem slash_of_mem_dashChars (member : '/' ∈ dashChars input) : '/' ∈ input := by
  rcases isFrom_of_mem_dashChars member with dash | ⟨listed, -⟩ | ⟨c, -, capital, lowered⟩
  next => cases dash
  next => exact listed
  next => exact absurd rfl (not_separator_of_mem_lower capital lowered).2

end Texts

section Separators

def dashSeparator (c : Char) : Char :=
  if c = '_' ∨ c = ' ' then '-' else c

theorem dashSeparator_of_not_separator {c : Char} (plain : isWordSeparator c = false) :
    dashSeparator c = c := by
  simp_all [dashSeparator, isWordSeparator]

theorem class_dashSeparator {p : Char → Bool}
    (plain : p '_' = false ∧ p ' ' = false ∧ p '-' = false) (c : Char) :
    p (dashSeparator c) = p c := by
  rw [dashSeparator]
  split
  next separator => rcases separator with rfl | rfl <;> simp [plain]
  next => rfl

theorem isWordSeparator_dashSeparator (c : Char) :
    isWordSeparator (dashSeparator c) = isWordSeparator c := by
  rw [dashSeparator]
  split
  next separator => rcases separator with rfl | rfl <;> rfl
  next => rfl

theorem startsWord_dashSeparator (previous next : Option Char) :
    startsWord (previous.map dashSeparator) (next.map dashSeparator) =
      startsWord previous next := by
  have small := class_dashSeparator (p := isLower) (by decide)
  have digit := class_dashSeparator (p := Char.isDigit) (by decide)
  have capital := class_dashSeparator (p := isUpper) (by decide)
  cases previous with
  | none => rfl
  | some p => cases next <;> simp [startsWord, small, digit, capital]

theorem dashFrom_map_dashSeparator (out : List Char) (previous : Option Char)
    (input : List Char) :
    dashFrom out (previous.map dashSeparator) (input.map dashSeparator) =
      dashFrom out previous input := by
  induction input generalizing out previous with
  | nil => rfl
  | cons c rest ih =>
    have starts := startsWord_dashSeparator previous rest.head?
    have later (out : List Char) : dashFrom out (some (dashSeparator c)) (rest.map dashSeparator) =
        dashFrom out (some c) rest := ih out (some c)
    simp only [List.map_cons, dashFrom, List.head?_map, starts, later,
      isWordSeparator_dashSeparator, class_dashSeparator (p := isUpper) (by decide)]
    by_cases separates : isWordSeparator c = true
    next => simp only [separates, if_true]
    next => rw [dashSeparator_of_not_separator (by simpa using separates)]

end Separators

section Letters

variable {out next input : List Char} {c : Char}

def letters (c : Char) : List Char :=
  if isWordSeparator c then [] else if isUpper c then lower c else [c]

def undashed (text : List Char) : List Char :=
  text.filter (· != '-')

theorem undashed_addDash (out : List Char) : undashed (addDash out) = undashed out := by
  rcases out with _ | ⟨c, out⟩
  next => rfl
  next =>
    rw [addDash]
    split
    next => rfl
    next => simp [undashed]

theorem not_separator_of_isUpper (capital : isUpper c = true) : isWordSeparator c = false := by
  by_contra separates
  simp only [isWordSeparator, Bool.not_eq_false, Bool.or_eq_true, beq_iff_eq] at separates
  rcases separates with (rfl | rfl) | rfl <;> cases capital

theorem Adds.undashed_eq (adds : Adds out c next) :
    undashed next = (letters c).reverse ++ undashed out := by
  cases adds with
  | separator separates => simp [letters, separates, undashed_addDash]
  | @capital start capital started =>
    have kept : undashed (lower c).reverse = (lower c).reverse := by
      refine List.filter_eq_self.mpr fun x member => ?_
      have plain := (not_separator_of_mem_lower capital (List.mem_reverse.mp member)).1
      simp_all [isWordSeparator]
    have begun : undashed start = undashed out := by
      rcases started with rfl | rfl
      next => rfl
      next => exact undashed_addDash out
    rw [letters, not_separator_of_isUpper capital, if_neg Bool.false_ne_true, if_pos capital,
      ← begun, ← kept]
    simp [undashed]
  | same plain small =>
    have other : c ≠ '-' := by
      rintro rfl
      cases plain
    simp [letters, plain, small, undashed, other]

theorem undashed_dashFrom (out : List Char) (previous : Option Char) (input : List Char) :
    undashed (dashFrom out previous input) =
      (input.flatMap letters).reverse ++ undashed out := by
  induction input generalizing out previous with
  | nil => rfl
  | cons c rest ih =>
    rw [dashFrom_cons, ih, (adds_dashStep out previous c rest.head?).undashed_eq]
    simp

theorem eq_of_dropWhile_dash {α : Type} {f : List Char → α}
    (passes : ∀ rest, f ('-' :: rest) = f rest) (text : List Char) :
    f (text.dropWhile (· == '-')) = f text := by
  induction text with
  | nil => rfl
  | cons c rest ih =>
    rw [List.dropWhile_cons]
    split
    next dash => rw [ih, beq_iff_eq.mp dash, passes]
    next => rfl

theorem undashed_dropWhile (text : List Char) :
    undashed (text.dropWhile (· == '-')) = undashed text :=
  eq_of_dropWhile_dash (fun _ => rfl) text

theorem undashed_dashChars (input : List Char) :
    undashed (dashChars input) = input.flatMap letters := by
  have turned (text : List Char) : undashed text.reverse = (undashed text).reverse :=
    List.filter_reverse
  rw [dashChars, trimDashes, undashed_dropWhile, turned, undashed_dropWhile, undashed_dashFrom]
  simp [undashed]

end Letters

theorem dasherize_isDashed (text : String) :
    IsDashed (dasherize text).toList ∧
      '_' ∉ (dasherize text).toList ∧ ' ' ∉ (dasherize text).toList ∧
      dasherize (text.map dashSeparator) = dasherize text ∧
      undashed (dasherize text).toList = text.toList.flatMap letters ∧
      (LowersFully text.toList →
        (∀ c ∈ (dasherize text).toList, isUpper c = false) ∧
          dasherize (dasherize text) = dasherize text ∧
          (dasherize text = text ↔ IsDashed text.toList ∧
            ∀ c ∈ text.toList, c ≠ '_' ∧ c ≠ ' ' ∧ isUpper c = false)) := by
  have written : (dasherize text).toList = dashChars text.toList := String.toList_ofList
  rw [written]
  refine ⟨isDashed_dashChars _, fun low => (joined_of_mem_dashChars low).1 rfl,
    fun blank => (joined_of_mem_dashChars blank).2 rfl, ?_, undashed_dashChars _, fun lowers => ?_⟩
  next =>
    have same := dashFrom_map_dashSeparator [] none text.toList
    rw [dasherize, dashChars, String.toList_map]
    exact congrArg (fun out => String.ofList (trimDashes out)) same
  next =>
    refine ⟨fun c => isUpper_of_mem_dashChars lowers, ?_, ?_⟩
    next => rw [dasherize, written, dashChars_dashChars lowers, dasherize]
    next =>
      rw [← String.toList_inj, written]
      constructor
      next =>
        intro same
        rw [← same]
        exact ⟨isDashed_dashChars _, fun c member => ⟨(joined_of_mem_dashChars member).1,
          (joined_of_mem_dashChars member).2, isUpper_of_mem_dashChars lowers member⟩⟩
      next =>
        rintro ⟨dashed, plain⟩
        exact dashChars_of_isDashed dashed
          (fun c member => ⟨(plain c member).1, (plain c member).2.1⟩)
          fun c member => (plain c member).2.2

theorem dasherize_isDashed_capitals :
    LowersFully "__HTTPRequest 2_Ünit-".toList ∧
      dasherize "__HTTPRequest 2_Ünit-" = "http-request-2-ünit" ∧
      dasherize "http-request-2-ünit" = "http-request-2-ünit" := by
  have lowers : LowersFully "__HTTPRequest 2_Ünit-".toList := by decide +kernel
  have name : dasherize "__HTTPRequest 2_Ünit-" = "http-request-2-ünit" := by decide +kernel
  obtain ⟨-, -, -, -, -, rest⟩ := dasherize_isDashed "__HTTPRequest 2_Ünit-"
  obtain ⟨-, again, -⟩ := rest lowers
  rw [name] at again
  exact ⟨lowers, name, again⟩

end Naming

end SchemaMigration
