import Mathlib.Data.List.Basic
import Mathlib.Data.List.TakeDrop
import Mathlib.Data.List.TakeWhile
import Mathlib.Data.Option.Basic
import SchemaMigration.Specifier.Pattern

set_option autoImplicit false

namespace SchemaMigration

section Cuts

variable {c : Char} {text before after rest : List Char}

theorem span_ne_eq_iff :
    text.span (· != c) = (before, after) ↔
      text = before ++ after ∧ c ∉ before ∧ ∀ first ∈ after.head?, first = c := by
  rw [List.span_eq_takeWhile_dropWhile, Prod.mk.injEq]
  constructor
  next =>
    rintro ⟨rfl, rfl⟩
    refine ⟨List.takeWhile_append_dropWhile.symm, ?_, ?_⟩
    next =>
      intro member
      simpa using List.mem_takeWhile_imp member
    next =>
      intro first opens
      have stops := List.head?_dropWhile_not (· != c) text
      rw [Option.mem_def.mp opens] at stops
      simpa using stops
  next =>
    rintro ⟨rfl, absent, opens⟩
    have passed : ∀ x ∈ before, (x != c) = true := by
      intro x member
      rw [bne_iff_ne]
      rintro rfl
      exact absent member
    rw [List.takeWhile_append_of_pos passed, List.dropWhile_append_of_pos passed]
    cases after with
    | nil => simp
    | cons first later => simp [opens first rfl]

theorem dropWhile_eq_iff :
    text.dropWhile (· == c) = rest ↔
      rest.head? ≠ some c ∧ ∃ n, text = List.replicate n c ++ rest := by
  constructor
  next =>
    rintro rfl
    refine ⟨?_, (text.takeWhile (· == c)).length, ?_⟩
    next =>
      intro opens
      have stops := List.head?_dropWhile_not (· == c) text
      simp [opens] at stops
    next =>
      have same : text.takeWhile (· == c) = List.replicate (text.takeWhile (· == c)).length c := by
        rw [List.eq_replicate_iff]
        exact ⟨rfl, fun x member => by simpa using List.mem_takeWhile_imp member⟩
      rw [← same, List.takeWhile_append_dropWhile]
  next =>
    rintro ⟨other, n, rfl⟩
    rw [List.dropWhile_append_of_pos fun x member => by simp [List.eq_of_mem_replicate member]]
    cases rest with
    | nil => rfl
    | cons first later => simpa using other

theorem afterSteps?_eq_some_iff :
    afterSteps? before text = some rest ↔
      text = before ∧ rest = [] ∨ text = before ++ '/' :: rest := by
  rw [afterSteps?]
  split
  next apart =>
    have unlike (tail : List Char) : text ≠ before ++ tail := by
      rintro rfl
      rw [List.isPrefixOf?_eq_some_iff_append_eq.mpr rfl] at apart
      cases apart
    constructor
    next =>
      intro found
      cases found
    next =>
      rintro (⟨same, -⟩ | below)
      next => exact (unlike [] (by simpa using same)).elim
      next => exact (unlike _ below).elim
  next whole =>
    rw [List.isPrefixOf?_eq_some_iff_append_eq] at whole
    simp [← whole, eq_comm]
  next c tail longer =>
    rw [List.isPrefixOf?_eq_some_iff_append_eq] at longer
    by_cases slash : c = '/' <;> simp [← longer, slash]

end Cuts

namespace Text

variable {text before after : List Char}

theorem splitAtStar?_eq_some_iff :
    splitAtStar? text = some (before, after) ↔ text = before ++ '*' :: after ∧ '*' ∉ before := by
  rw [splitAtStar?]
  split
  next front cut =>
    obtain ⟨rfl, absent, -⟩ := span_ne_eq_iff.mp cut
    constructor
    next =>
      intro found
      cases found
    next =>
      rintro ⟨written, -⟩
      rw [List.append_nil] at written
      exact (absent (by simp [written])).elim
  next front star back cut =>
    obtain ⟨rfl, absent, opens⟩ := span_ne_eq_iff.mp cut
    obtain rfl := opens star rfl
    constructor
    next =>
      rintro ⟨⟩
      exact ⟨rfl, absent⟩
    next =>
      rintro ⟨written, first⟩
      have again := span_ne_eq_iff.mpr ⟨written, first, by simp⟩
      rw [cut] at again
      cases again
      rfl

theorem splitAtStar?_eq_none_iff : splitAtStar? text = none ↔ '*' ∉ text := by
  rw [Option.eq_none_iff_forall_ne_some]
  constructor
  next =>
    intro uncut star
    obtain ⟨before, after, written, first⟩ := List.eq_append_cons_of_mem star
    exact uncut (before, after) (splitAtStar?_eq_some_iff.mpr ⟨written, first⟩)
  next =>
    rintro plain ⟨before, after⟩ cut
    apply plain
    rw [(splitAtStar?_eq_some_iff.mp cut).1]
    simp

end Text

namespace Pattern

variable {text before after specifier rest : List Char} {m : PatternMatch}

def IsTrimmed (pattern bare : List Char) : Prop :=
  bare.getLast? ≠ some '/' ∧ ∃ n, pattern = bare ++ List.replicate n '/'

theorem isTrimmed_trimSlashes (pattern : List Char) :
    IsTrimmed pattern (Text.trimSlashes pattern) := by
  obtain ⟨stops, n, backwards⟩ :=
    dropWhile_eq_iff.mp (Eq.refl (pattern.reverse.dropWhile (· == '/')))
  refine ⟨by simpa [Text.trimSlashes] using stops, n, ?_⟩
  rw [Text.trimSlashes, ← List.reverse_inj, List.reverse_append, List.reverse_reverse,
    List.reverse_replicate]
  exact backwards

-- What may follow a pattern whose part behind the star is `after`: nothing, or what lies below it.
-- Where the star is the last step, any number of slashes come before that.
inductive Continues (after : List Char) : List Char → List Char → Prop
  | nothing : Continues after [] []
  | below {rest : List Char} (further : after ≠ []) : Continues after ('/' :: rest) rest
  | slashes {rest : List Char} (n : Nat) (last : after = []) (opens : rest.head? ≠ some '/') :
      Continues after (List.replicate (n + 1) '/' ++ rest) rest

inductive Fits (pattern specifier : List Char) : PatternMatch → Prop
  | whole (plain : '*' ∉ pattern) (same : specifier = pattern) : Fits pattern specifier ⟨none, ""⟩
  | below {rest : List Char} (plain : '*' ∉ pattern)
      (written : specifier = pattern ++ '/' :: rest) :
      Fits pattern specifier ⟨none, String.ofList rest⟩
  | star {before after capture tail rest : List Char} (cut : pattern = before ++ '*' :: after)
      (first : '*' ∉ before) (steps : after = [] ∨ after.head? = some '/') (filled : capture ≠ [])
      (oneStep : '/' ∉ capture) (written : specifier = before ++ capture ++ after ++ tail)
      (continues : Continues after tail rest) :
      Fits pattern specifier ⟨some (String.ofList capture), String.ofList rest⟩

-- The captured step ends where a slash or the specifier does, so only then is something found.
theorem restAfter?_eq_some_iff (opens : ∀ first ∈ text.head?, first = '/') :
    restAfter? after text = some rest ↔ (after = [] ∨ after.head? = some '/') ∧
      ∃ tail, text = after ++ tail ∧ Continues after tail rest := by
  rw [restAfter?]
  cases after with
  | nil =>
    simp only [List.isEmpty_nil, if_true, Option.some.injEq, dropWhile_eq_iff, List.nil_append,
      true_or, true_and, exists_eq_left']
    constructor
    next =>
      rintro ⟨stops, n, rfl⟩
      cases n with
      | zero =>
        cases rest with
        | nil => exact .nothing
        | cons first later => exact absurd (opens first rfl) (by simpa using stops)
      | succ n => exact .slashes n rfl stops
    next =>
      intro continues
      cases continues with
      | nothing => exact ⟨by simp, 0, rfl⟩
      | below further => exact absurd rfl further
      | slashes n _ stops => exact ⟨stops, n + 1, rfl⟩
  | cons first later =>
    simp only [List.isEmpty_cons, Bool.false_eq_true, if_false, afterSteps?_eq_some_iff]
    constructor
    next =>
      rintro (⟨rfl, rfl⟩ | rfl)
      next => exact ⟨.inr (by simp [opens first rfl]), [], by simp, .nothing⟩
      next => exact ⟨.inr (by simp [opens first rfl]), _, rfl, .below (by simp)⟩
    next =>
      rintro ⟨-, tail, rfl, continues⟩
      cases continues with
      | nothing => exact .inl ⟨by simp, rfl⟩
      | below => exact .inr rfl
      | slashes _ last => cases last

theorem matchChars?_of_plain (plain : Text.splitAtStar? (Text.trimSlashes text) = none) :
    matchChars? text specifier = some m ↔ Fits (Text.trimSlashes text) specifier m := by
  have noStar := Text.splitAtStar?_eq_none_iff.mp plain
  have run : matchChars? text specifier =
      (afterSteps? (Text.trimSlashes text) specifier).map fun rest =>
        ⟨none, String.ofList rest⟩ := by
    rw [matchChars?, plain]
    cases afterSteps? (Text.trimSlashes text) specifier <;> rfl
  rw [run, Option.map_eq_some_iff]
  constructor
  next =>
    rintro ⟨rest, found, rfl⟩
    rcases afterSteps?_eq_some_iff.mp found with ⟨same, rfl⟩ | written
    next => exact .whole noStar same
    next => exact .below noStar written
  next =>
    intro fits
    cases fits with
    | whole _ same => exact ⟨[], afterSteps?_eq_some_iff.mpr (.inl ⟨same, rfl⟩), rfl⟩
    | below _ written => exact ⟨_, afterSteps?_eq_some_iff.mpr (.inr written), rfl⟩
    | star cut => exact absurd (by simp [cut]) noStar

theorem matchChars?_of_star
    (cut : Text.splitAtStar? (Text.trimSlashes text) = some (before, after)) :
    matchChars? text specifier = some m ↔ ∃ capture tail rest,
      specifier = before ++ (capture ++ tail) ∧ capture ≠ [] ∧ '/' ∉ capture ∧
      (∀ first ∈ tail.head?, first = '/') ∧ restAfter? after tail = some rest ∧
      m = ⟨some (String.ofList capture), String.ofList rest⟩ := by
  simp only [matchChars?, cut, Option.bind_eq_bind, Option.bind_eq_some_iff,
    Option.guard_eq_some', Option.pure_def, Option.some.injEq, Bool.not_eq_eq_eq_not, Bool.not_true,
    List.isEmpty_eq_false_iff, List.isPrefixOf?_eq_some_iff_append_eq]
  constructor
  next =>
    rintro ⟨found, written, -, filled, rest, continues, rfl⟩
    have split := List.span_eq_takeWhile_dropWhile (· != '/') found
    obtain ⟨whole, oneStep, opens⟩ := span_ne_eq_iff.mp split
    exact ⟨_, _, rest, by rw [← whole, written], filled, oneStep, opens, continues, rfl⟩
  next =>
    rintro ⟨capture, tail, rest, rfl, filled, oneStep, opens, continues, rfl⟩
    have split := span_ne_eq_iff.mpr ⟨rfl, oneStep, opens⟩
    rw [List.span_eq_takeWhile_dropWhile, Prod.mk.injEq] at split
    refine ⟨_, rfl, ⟨⟩, ?_, rest, ?_, ?_⟩
    next => rwa [split.1]
    next => rwa [split.2]
    next => rw [split.1]

theorem matchChars?_eq_some_iff :
    matchChars? text specifier = some m ↔ Fits (Text.trimSlashes text) specifier m := by
  cases cut : Text.splitAtStar? (Text.trimSlashes text) with
  | none => exact matchChars?_of_plain cut
  | some found =>
    obtain ⟨before, after⟩ := found
    obtain ⟨written, first⟩ := Text.splitAtStar?_eq_some_iff.mp cut
    rw [matchChars?_of_star cut]
    constructor
    next =>
      rintro ⟨capture, tail, rest, rfl, filled, oneStep, opens, found, rfl⟩
      obtain ⟨steps, tail, rfl, continues⟩ := (restAfter?_eq_some_iff opens).mp found
      exact .star written first steps filled oneStep (by simp) continues
    next =>
      intro fits
      cases fits with
      | whole plain | below plain => exact absurd (by simp [written]) plain
      | @star before' after' capture tail rest cut' first' steps filled oneStep same continues =>
        -- The first star is in one place only.
        have again := Text.splitAtStar?_eq_some_iff.mpr ⟨cut', first'⟩
        rw [cut] at again
        cases again
        have opens : ∀ first ∈ (after ++ tail).head?, first = '/' := by
          rcases steps with rfl | opens
          next =>
            cases continues with
            | nothing => simp
            | below further => exact absurd rfl further
            | slashes n => simp [List.replicate_succ]
          next => simp [List.head?_append, opens]
        exact ⟨capture, after ++ tail, rest, by simp [same], filled, oneStep, opens,
          (restAfter?_eq_some_iff opens).mpr ⟨steps, tail, rfl, continues⟩, rfl⟩

inductive Filled (template : Path) : Option String → Path → Prop
  | plain : Filled template none template
  | star {before after : List Char} {capture : String}
      (cut : template.text.toList = before ++ '*' :: after) (first : '*' ∉ before) :
      Filled template (some capture) ⟨String.ofList (before ++ capture.toList ++ after)⟩
  | step {capture : String} (plain : '*' ∉ template.text.toList) :
      Filled template (some capture) (template.join ⟨capture⟩)

theorem filled_substitute (template : Path) (capture : Option String) :
    Filled template capture (substitute template capture) := by
  cases capture with
  | none => exact .plain
  | some capture =>
    rw [substitute]
    split
    next before after cut =>
      obtain ⟨written, first⟩ := Text.splitAtStar?_eq_some_iff.mp cut
      have text : String.ofList before ++ capture ++ String.ofList after =
          String.ofList (before ++ capture.toList ++ after) := by
        simp [String.ofList_append, String.append_assoc]
      rw [text]
      exact .star written first
    next uncut => exact .step (Text.splitAtStar?_eq_none_iff.mp uncut)

end Pattern

theorem match_inverts_substitution (pattern specifier : String) :
    ∃ bare, Pattern.IsTrimmed pattern.toList bare ∧
      (∀ m, Pattern.match? pattern specifier = some m ↔ Pattern.Fits bare specifier.toList m) ∧
      (∀ m other, Pattern.Fits bare specifier.toList m → Pattern.Fits bare specifier.toList other →
        m = other) ∧
      (∀ before after, bare = before ++ '*' :: after → '*' ∉ before → after ≠ [] →
        after.head? ≠ some '/' → Pattern.match? pattern specifier = none) ∧
      ∀ (template : Path) (m : PatternMatch), ∃ base, Pattern.Filled template m.capture base ∧
        Pattern.expand template m = if m.rest = "" then base else base.join ⟨m.rest⟩ := by
  have fits (m : PatternMatch) : Pattern.match? pattern specifier = some m ↔
      Pattern.Fits (Text.trimSlashes pattern.toList) specifier.toList m :=
    Pattern.matchChars?_eq_some_iff
  refine ⟨_, Pattern.isTrimmed_trimSlashes _, fits, ?_, ?_, ?_⟩
  next =>
    intro m other one two
    rw [← fits] at one two
    exact Option.some.inj (one.symm.trans two)
  next =>
    intro before after written first more inside
    rw [Option.eq_none_iff_forall_ne_some]
    intro m matched
    cases (fits m).mp matched with
    | whole plain | below plain => exact absurd (by simp [written]) plain
    | star cut first' steps =>
      have same := Text.splitAtStar?_eq_some_iff.mpr ⟨cut, first'⟩
      rw [Text.splitAtStar?_eq_some_iff.mpr ⟨written, first⟩] at same
      cases same
      exact steps.elim more inside
  next =>
    intro template m
    refine ⟨_, Pattern.filled_substitute template m.capture, ?_⟩
    simp [Pattern.expand, String.isEmpty_iff]

end SchemaMigration
