import SchemaMigration.Json.Printer
import SchemaMigration.Json.Reader

set_option autoImplicit false

namespace SchemaMigration.Json

section Strings

inductive Spells : Char → List Char → Prop where
  | plain {c : Char} (visible : ¬ c < ' ') (notQuote : c ≠ '"') (notBackslash : c ≠ '\\') :
      Spells c [c]
  | short {c e : Char} (denotes : shortEscape? e = some c) : Spells c ['\\', e]
  | unit {c x₁ x₂ x₃ x₄ : Char} (denotes : codeUnit? x₁ x₂ x₃ x₄ = some c.toNat) :
      Spells c ['\\', 'u', x₁, x₂, x₃, x₄]
  | pair {x₁ x₂ x₃ x₄ y₁ y₂ y₃ y₄ : Char} {high low : Nat}
      (first : codeUnit? x₁ x₂ x₃ x₄ = some high) (isHigh : isHighSurrogate high = true)
      (second : codeUnit? y₁ y₂ y₃ y₄ = some low) (isLow : isLowSurrogate low = true) :
      Spells (Char.ofNat (0x10000 + (high - 0xD800) * 0x400 + (low - 0xDC00)))
        ['\\', 'u', x₁, x₂, x₃, x₄, '\\', 'u', y₁, y₂, y₃, y₄]

inductive SpelledAs : List Char → List Char → Prop where
  | nil : SpelledAs [] []
  | cons {c : Char} {cs s t : List Char} (first : Spells c s) (others : SpelledAs cs t) :
      SpelledAs (c :: cs) (s ++ t)

theorem toNat_not_surrogate (c : Char) :
    isLowSurrogate c.toNat = false ∧ isHighSurrogate c.toNat = false := by
  have valid : c.toNat < 0xD800 ∨ 0xDFFF < c.toNat ∧ c.toNat < 0x110000 := c.valid
  simp only [isLowSurrogate, isHighSurrogate, Bool.and_eq_false_iff, decide_eq_false_iff_not]
  omega

theorem Spells.exists_pieces {c : Char} {s : List Char} (spells : Spells c s) :
    ∃ pieces : List Piece,
      (∀ t, readPieces (s ++ t) = (readPieces t).map fun found => (pieces ++ found.1, found.2)) ∧
      ∀ more, joinPieces? (pieces ++ more) = (joinPieces? more).map (c :: ·) := by
  cases spells with
  | plain visible notQuote notBackslash =>
    refine ⟨[.char c], fun t => ?_, fun _ => by rw [List.singleton_append, joinPieces?]⟩
    rw [List.singleton_append, readPieces]
    · simp only [visible, notBackslash, decide_false, beq_eq_false_iff_ne.mpr, ne_eq, not_false_iff,
        Bool.or_self, Bool.false_eq_true, if_false]
      cases readPieces t <;> rfl
    · exact notQuote
    · exact fun _ _ _ _ _ same => absurd same notBackslash
    · exact fun _ _ same => absurd same notBackslash
  | @short _ e denotes =>
    refine ⟨[.char c], fun t => ?_, fun _ => by rw [List.singleton_append, joinPieces?]⟩
    have notUnit : e ≠ 'u' := by
      rintro rfl
      cases denotes
    rw [List.cons_append, List.singleton_append, readPieces, denotes]
    · cases readPieces t <;> rfl
    · exact fun _ _ _ _ _ same => absurd same notUnit
  | unit denotes =>
    obtain ⟨notLow, notHigh⟩ := toNat_not_surrogate c
    refine ⟨[.unit c.toNat], fun t => ?_, fun more => ?_⟩
    · simp only [List.cons_append, List.nil_append, readPieces, denotes]
      cases readPieces t <;> rfl
    · simp [joinPieces?.eq_def (.unit c.toNat :: more), notLow, notHigh]
  | @pair _ _ _ _ _ _ _ _ high low first isHigh second isLow =>
    have notLow : isLowSurrogate high = false := by
      simp only [isHighSurrogate, isLowSurrogate, Bool.and_eq_true, Bool.and_eq_false_iff,
        decide_eq_true_eq, decide_eq_false_iff_not] at isHigh ⊢
      omega
    refine ⟨[.unit high, .unit low], fun t => ?_, fun more => ?_⟩
    · simp only [List.cons_append, List.nil_append, readPieces, first, second]
      cases readPieces t <;> rfl
    · simp [joinPieces?, notLow, isHigh, isLow]

theorem SpelledAs.exists_pieces {contents s : List Char} (spelled : SpelledAs contents s)
    (rest : List Char) : ∃ pieces,
      readPieces (s ++ '"' :: rest) = some (pieces, rest) ∧ joinPieces? pieces = some contents := by
  induction spelled with
  | nil => exact ⟨[], rfl, rfl⟩
  | cons first _ ih =>
    obtain ⟨pieces, read, joined⟩ := first.exists_pieces
    obtain ⟨others, readOthers, joinedOthers⟩ := ih
    refine ⟨pieces ++ others, ?_, ?_⟩
    · rw [List.append_assoc, read, readOthers, Option.map_some]
    · rw [joined, joinedOthers, Option.map_some]

theorem SpelledAs.readString {contents : String} {s : List Char}
    (spelled : SpelledAs contents.toList s) (rest : List Char) :
    Json.readString (s ++ '"' :: rest) = some (.string contents, rest) := by
  obtain ⟨pieces, read, joined⟩ := spelled.exists_pieces rest
  simp only [Json.readString, read, joined, Option.bind_eq_bind, Option.bind_some, Option.pure_def,
    String.ofList_toList]

theorem hexDigit?_hexChar : ∀ n < 16, hexDigit? (hexChar n) = some n := by
  decide

theorem codeUnit?_hexChar {n : Nat} (small : n < 256) :
    codeUnit? '0' '0' (hexChar (n / 16)) (hexChar (n % 16)) = some n := by
  have zero : hexDigit? '0' = some 0 := by decide
  have high := hexDigit?_hexChar (n / 16) (by omega)
  have low := hexDigit?_hexChar (n % 16) (by omega)
  simp only [codeUnit?, zero, high, low, Option.pure_def, Option.bind_eq_bind, Option.bind_some]
  congr 1
  omega

theorem spells_escapeChar (c : Char) : Spells c (escapeChar c) := by
  by_cases escaped : c ∈ ['"', '\\', '\n', '\r', '\t', '\x08', '\x0c']
  next =>
    simp only [List.mem_cons, List.not_mem_nil, or_false] at escaped
    rcases escaped with rfl | rfl | rfl | rfl | rfl | rfl | rfl <;> exact .short rfl
  next =>
    simp only [List.mem_cons, List.not_mem_nil, or_false, not_or] at escaped
    obtain ⟨quote, backslash, feed, carriage, tab, back, form⟩ := escaped
    simp only [escapeChar, beq_iff_eq, quote, backslash, feed, carriage, tab, back, form, if_false]
    by_cases control : c < ' '
    next =>
      have small : c.toNat < 32 := control
      rw [if_pos control]
      exact .unit (codeUnit?_hexChar (by omega))
    next =>
      rw [if_neg control]
      exact .plain control quote backslash

theorem spelledAs_escaped (contents : List Char) :
    SpelledAs contents (contents.flatMap escapeChar) := by
  induction contents with
  | nil => exact .nil
  | cons c contents ih => exact .cons (spells_escapeChar c) ih

theorem toList_quoted (contents : String) :
    (quoted contents).toList = '"' :: (contents.toList.flatMap escapeChar ++ ['"']) := by
  rw [quoted, String.toList_ofList]

end Strings

section Grammar

def IsBlanks (s : List Char) : Prop :=
  ∀ c ∈ s, isBlank c = true

-- Texts with commas between them. Blanks may stand before and after each, but not before all.
inductive Listed {α : Type} (Text : α → List Char → Prop) : List α → List Char → Prop where
  | last {a : α} {s after : List Char} (written : Text a s) (blank : IsBlanks after) :
      Listed Text [a] (s ++ after)
  | more {a : α} {as : List α} {s after before t : List Char} (written : Text a s)
      (blankAfter : IsBlanks after) (blankBefore : IsBlanks before) (others : Listed Text as t) :
      Listed Text (a :: as) (s ++ (after ++ ',' :: (before ++ t)))

inductive Bracketed {α : Type} (Text : α → List Char → Prop) (opening closing : Char) :
    List α → List Char → Prop where
  | empty {blanks : List Char} (blank : IsBlanks blanks) :
      Bracketed Text opening closing [] (opening :: (blanks ++ [closing]))
  | filled {as : List α} {before s : List Char} (blank : IsBlanks before)
      (listed : Listed Text as s) :
      Bracketed Text opening closing as (opening :: (before ++ (s ++ [closing])))

mutual

inductive WrittenAs : Json → List Char → Prop where
  | null : WrittenAs .null "null".toList
  | yes : WrittenAs (.bool true) "true".toList
  | no : WrittenAs (.bool false) "false".toList
  | string {contents : String} {s : List Char} (spelled : SpelledAs contents.toList s) :
      WrittenAs (.string contents) ('"' :: (s ++ ['"']))
  | array {items : List Json} {s : List Char} (written : Bracketed WrittenAs '[' ']' items s) :
      WrittenAs (.array items) s
  | object {entries : List (String × Json)} {s : List Char}
      (written : Bracketed EntryWrittenAs '\x7b' '\x7d' entries s) : WrittenAs (.object entries) s

inductive EntryWrittenAs : String × Json → List Char → Prop where
  | mk {key : String} {value : Json} {name after before s : List Char}
      (spelled : SpelledAs key.toList name) (blankAfter : IsBlanks after)
      (blankBefore : IsBlanks before) (written : WrittenAs value s) :
      EntryWrittenAs (key, value) ('"' :: (name ++ '"' :: (after ++ ':' :: (before ++ s))))

end

def IsTextOf (text : String) (j : Json) : Prop :=
  ∃ before s after, IsBlanks before ∧ j.WrittenAs s ∧ IsBlanks after ∧
    text.toList = before ++ (s ++ after)

theorem isBlanks_nil : IsBlanks [] :=
  nofun

theorem IsBlanks.append {s t : List Char} (first : IsBlanks s) (second : IsBlanks t) :
    IsBlanks (s ++ t) := by
  intro c member
  exact (List.mem_append.mp member).elim (first c) (second c)

theorem IsBlanks.skipBlanks_append {before : List Char} (blank : IsBlanks before) (s : List Char) :
    skipBlanks (before ++ s) = skipBlanks s :=
  List.dropWhile_append_of_pos blank

theorem skipBlanks_cons {c : Char} (mark : isBlank c = false) (s : List Char) :
    skipBlanks (c :: s) = c :: s :=
  List.dropWhile_cons_of_neg (by simp [mark])

theorem IsBlanks.skipBlanks_mark {before : List Char} (blank : IsBlanks before) {c : Char}
    (mark : isBlank c = false) (s : List Char) : skipBlanks (before ++ c :: s) = c :: s := by
  rw [blank.skipBlanks_append, skipBlanks_cons mark]

def Opens (c : Char) : Prop :=
  isBlank c = false ∧ c ≠ ']' ∧ c ≠ '\x7d'

instance (c : Char) : Decidable (Opens c) :=
  inferInstanceAs (Decidable (_ ∧ _))

theorem WrittenAs.isTextOf {text : String} {j : Json} (written : j.WrittenAs text.toList) :
    IsTextOf text j :=
  ⟨[], text.toList, [], isBlanks_nil, written, isBlanks_nil, by simp⟩

theorem WrittenAs.exists_cons {j : Json} {s : List Char} (written : j.WrittenAs s) :
    ∃ c rest, s = c :: rest ∧ Opens c := by
  cases written with
  | null | yes | no | string => exact ⟨_, _, rfl, by decide⟩
  | array written | object written => cases written <;> exact ⟨_, _, rfl, by decide⟩

theorem EntryWrittenAs.exists_cons {entry : String × Json} {s : List Char}
    (written : EntryWrittenAs entry s) : ∃ c rest, s = c :: rest ∧ Opens c := by
  cases written
  exact ⟨_, _, rfl, by decide⟩

theorem Listed.exists_cons {α : Type} {Text : α → List Char → Prop}
    (starts : ∀ {a s}, Text a s → ∃ c rest, s = c :: rest ∧ Opens c) {as : List α} {s : List Char}
    (listed : Listed Text as s) : ∃ c rest, s = c :: rest ∧ Opens c := by
  cases listed with
  | last written | more written =>
    obtain ⟨c, rest, rfl, opens⟩ := starts written
    exact ⟨c, _, rfl, opens⟩

end Grammar

section Reading

-- With so many steps to take, every text that is short enough is read back, whatever follows.
structure ReadsBack (fuel : Nat) : Prop where
  value : ∀ {j : Json} {before s : List Char} (rest : List Char), IsBlanks before →
    j.WrittenAs s → s.length ≤ fuel → readValue fuel (before ++ (s ++ rest)) = some (j, rest)
  items : ∀ {items : List Json} {before s : List Char} (rest : List Char), IsBlanks before →
    Listed WrittenAs items s → s.length < fuel →
    readItems fuel (before ++ (s ++ ']' :: rest)) = some (items, rest)
  entries : ∀ {entries : List (String × Json)} {before s : List Char} (rest : List Char),
    IsBlanks before → Listed EntryWrittenAs entries s → s.length < fuel →
    readEntries fuel (before ++ (s ++ '\x7d' :: rest)) = some (entries, rest)

variable {fuel : Nat}

theorem ReadsBack.value_succ (reads : ReadsBack fuel) {j : Json} {before s : List Char}
    (rest : List Char) (blank : IsBlanks before) (written : j.WrittenAs s)
    (enough : s.length ≤ fuel + 1) :
    readValue (fuel + 1) (before ++ (s ++ rest)) = some (j, rest) := by
  rw [readValue, blank.skipBlanks_append]
  cases written with
  | null | yes | no => rfl
  | string spelled =>
    rw [List.cons_append, skipBlanks_cons (by decide), List.append_assoc]
    exact spelled.readString rest
  | array written =>
    cases written with
    | empty blank =>
      rw [List.cons_append, skipBlanks_cons (by decide), List.append_assoc]
      simp only [List.singleton_append, blank.skipBlanks_mark (c := ']') (by decide)]
    | filled blank listed =>
      simp only [List.length_cons, List.length_append] at enough
      rw [List.cons_append, skipBlanks_cons (by decide), List.append_assoc, List.append_assoc]
      have read := reads.items rest isBlanks_nil listed (by omega)
      -- An element starts after the blanks, so the array is not taken for an empty one.
      obtain ⟨c, t, rfl, mark, notClosing, -⟩ := listed.exists_cons WrittenAs.exists_cons
      simp only [List.cons_append, List.nil_append, blank.skipBlanks_mark mark] at read ⊢
      split
      next same => exact absurd (List.cons.inj same).1 notClosing
      next =>
        rw [read]
        rfl
  | object written =>
    cases written with
    | empty blank =>
      rw [List.cons_append, skipBlanks_cons (by decide), List.append_assoc]
      simp only [List.singleton_append, blank.skipBlanks_mark (c := '\x7d') (by decide)]
    | filled blank listed =>
      simp only [List.length_cons, List.length_append] at enough
      rw [List.cons_append, skipBlanks_cons (by decide), List.append_assoc, List.append_assoc]
      have read := reads.entries rest isBlanks_nil listed (by omega)
      obtain ⟨c, t, rfl, mark, -, notClosing⟩ := listed.exists_cons EntryWrittenAs.exists_cons
      simp only [List.cons_append, List.nil_append, blank.skipBlanks_mark mark] at read ⊢
      split
      next same => exact absurd (List.cons.inj same).1 notClosing
      next =>
        rw [read]
        rfl

theorem ReadsBack.items_succ (reads : ReadsBack fuel) {items : List Json} {before s : List Char}
    (rest : List Char) (blank : IsBlanks before) (listed : Listed WrittenAs items s)
    (enough : s.length < fuel + 1) :
    readItems (fuel + 1) (before ++ (s ++ ']' :: rest)) = some (items, rest) := by
  rw [readItems]
  cases listed with
  | last written blankAfter =>
    simp only [List.length_append] at enough
    rw [List.append_assoc, reads.value _ blank written (by omega)]
    simp only [Option.bind_eq_bind, Option.bind_some,
      blankAfter.skipBlanks_mark (c := ']') (by decide)]
    rfl
  | more written blankAfter blankBefore others =>
    simp only [List.length_append, List.length_cons] at enough
    rw [List.append_assoc, reads.value _ blank written (by omega)]
    simp only [Option.bind_eq_bind, Option.bind_some, List.append_assoc, List.cons_append,
      blankAfter.skipBlanks_mark (c := ',') (by decide)]
    rw [reads.items rest blankBefore others (by omega)]
    rfl

theorem ReadsBack.entry (reads : ReadsBack fuel) {entry : String × Json}
    {before s rest : List Char} (blank : IsBlanks before) (written : EntryWrittenAs entry s)
    (enough : s.length ≤ fuel) :
    (∀ t, skipBlanks rest = ',' :: t → readEntries (fuel + 1) (before ++ (s ++ rest)) =
      (readEntries fuel t).map fun found => (entry :: found.1, found.2)) ∧
    ∀ t, skipBlanks rest = '\x7d' :: t →
      readEntries (fuel + 1) (before ++ (s ++ rest)) = some ([entry], t) := by
  obtain ⟨spelled, blankKey, blankValue, written⟩ := written
  simp only [List.length_append, List.length_cons] at enough
  constructor <;> intro t following <;>
    simp only [readEntries, List.append_assoc, List.cons_append,
      blank.skipBlanks_mark (c := '"') (by decide), spelled.readString, Option.bind_eq_bind,
      Option.bind_some, blankKey.skipBlanks_mark (c := ':') (by decide),
      reads.value _ blankValue written (by omega), following, Option.pure_def]
  cases readEntries fuel t <;> rfl

theorem ReadsBack.entries_succ (reads : ReadsBack fuel) {entries : List (String × Json)}
    {before s : List Char} (rest : List Char) (blank : IsBlanks before)
    (listed : Listed EntryWrittenAs entries s) (enough : s.length < fuel + 1) :
    readEntries (fuel + 1) (before ++ (s ++ '\x7d' :: rest)) = some (entries, rest) := by
  cases listed with
  | last written blankAfter =>
    simp only [List.length_append] at enough
    rw [List.append_assoc]
    exact (reads.entry blank written (by omega)).2 rest (blankAfter.skipBlanks_mark (by decide) _)
  | more written blankAfter blankBefore others =>
    simp only [List.length_append, List.length_cons] at enough
    simp only [List.append_assoc, List.cons_append]
    rw [(reads.entry blank written (by omega)).1 _ (blankAfter.skipBlanks_mark (by decide) _),
      reads.entries rest blankBefore others (by omega), Option.map_some]

theorem readsBack (fuel : Nat) : ReadsBack fuel := by
  -- Every bracket and comma takes a step of the fuel and is a character of the text.
  induction fuel with
  | zero =>
    refine ⟨fun _ _ written short => ?_, nofun, nofun⟩
    obtain ⟨c, rest, rfl, -⟩ := written.exists_cons
    cases short
  | succ fuel ih => exact ⟨ih.value_succ, ih.items_succ, ih.entries_succ⟩

theorem IsTextOf.ofString? {text : String} {j : Json} (spelled : IsTextOf text j) :
    Json.ofString? text = some j := by
  obtain ⟨before, s, after, blankBefore, written, blankAfter, spelled⟩ := spelled
  have short : s.length ≤ text.toList.length + 1 := by
    rw [spelled]
    simp only [List.length_append]
    omega
  have read := (readsBack (text.toList.length + 1)).value after blankBefore written short
  have ended := blankAfter.skipBlanks_append []
  rw [List.append_nil, skipBlanks, skipBlanks, List.dropWhile_nil] at ended
  rw [← spelled] at read
  simp only [Json.ofString?, read, Option.bind_eq_bind, Option.bind_some, skipBlanks, ended,
    List.isEmpty_nil, if_true]

end Reading

section Printing

variable {α : Type} {Text : α → List Char → Prop} {print : α → String} {as : List α}

inductive IsPlain (named : String → Bool) : Json → Prop where
  | null : IsPlain named .null
  | bool (value : Bool) : IsPlain named (.bool value)
  | string (contents : String) : IsPlain named (.string contents)
  | array {items : List Json} (plain : ∀ item ∈ items, IsPlain named item) :
      IsPlain named (.array items)
  | object {entries : List (String × Json)} (keys : ∀ entry ∈ entries, named entry.1 = true)
      (plain : ∀ entry ∈ entries, IsPlain named entry.2) : IsPlain named (.object entries)

-- The blanks before the first text are not part of the list, those after the last one are.
theorem exists_listed {before gap after : List Char} (blankBefore : IsBlanks before)
    (blankGap : IsBlanks gap) (blankAfter : IsBlanks after) (filled : as ≠ [])
    (written : ∀ a ∈ as, Text a (print a).toList) :
    ∃ s, Listed Text as s ∧
      (',' :: gap).intercalate (as.map fun a => before ++ (print a).toList) ++ after =
        before ++ s := by
  induction as with
  | nil => contradiction
  | cons a as ih =>
    have first := written a List.mem_cons_self
    cases as with
    | nil =>
      refine ⟨_, .last first blankAfter, ?_⟩
      simp
    | cons b as =>
      obtain ⟨s, listed, joined⟩ :=
        ih (List.cons_ne_nil b as) fun a member => written a (List.mem_cons_of_mem _ member)
      refine ⟨_, .more first isBlanks_nil (blankGap.append blankBefore) listed, ?_⟩
      simp only [List.map_cons, List.intercalate_cons_cons, List.append_assoc, List.cons_append,
        List.nil_append] at joined ⊢
      rw [joined]

theorem isBlanks_margin (n : Nat) : IsBlanks (String.join (List.replicate n "  ")).toList := by
  intro c member
  rw [String.toList_join] at member
  obtain ⟨pair, copied, member⟩ := List.mem_flatMap.mp member
  obtain rfl := List.eq_of_mem_replicate copied
  obtain rfl : c = ' ' := by simpa using member
  decide

theorem isBlanks_singleton {c : Char} (blank : isBlank c = true) : IsBlanks [c] := by
  intro d member
  rwa [List.mem_singleton.mp member]

theorem bracketed_block {opening closing : Char} (depth : Nat)
    (written : ∀ a ∈ as, Text a (print a).toList) :
    Bracketed Text opening closing as (block (String.singleton opening) (String.singleton closing)
      depth (as.map print)).toList := by
  by_cases filled : as = []
  next =>
    subst filled
    have empty : Bracketed Text opening closing [] _ := .empty isBlanks_nil
    simpa [block] using empty
  next =>
    have lineBreak : IsBlanks ['\n'] := isBlanks_singleton (by decide)
    obtain ⟨s, listed, joined⟩ := exists_listed (isBlanks_margin (depth + 1)) lineBreak
      (lineBreak.append (isBlanks_margin depth)) filled written
    have texts : (as.map print).isEmpty = false := by simpa using filled
    have whole := congrArg (fun t => opening :: '\n' :: (t ++ [closing])) joined
    have bracketed : Bracketed Text opening closing as _ :=
      .filled (lineBreak.append (isBlanks_margin (depth + 1))) listed
    simp only [List.append_assoc, List.nil_append, List.cons_append] at whole bracketed
    rw [← whole] at bracketed
    simpa [block, texts, Function.comp_def] using bracketed

theorem bracketed_intercalate {opening closing : Char}
    (written : ∀ a ∈ as, Text a (print a).toList) :
    Bracketed Text opening closing as (String.singleton opening ++ ",".intercalate (as.map print) ++
      String.singleton closing).toList := by
  by_cases filled : as = []
  next =>
    subst filled
    have empty : Bracketed Text opening closing [] _ := .empty isBlanks_nil
    simpa using empty
  next =>
    obtain ⟨s, listed, joined⟩ :=
      exists_listed isBlanks_nil isBlanks_nil isBlanks_nil filled written
    have bracketed : Bracketed Text opening closing as _ := .filled isBlanks_nil listed
    simp only [List.nil_append, List.append_nil] at joined bracketed
    rw [← joined] at bracketed
    simpa [Function.comp_def] using bracketed

theorem prettyItems_eq (items : List Json) (depth : Nat) :
    prettyItems items depth = items.map (·.prettyAt depth) := by
  induction items with
  | nil => rfl
  | cons item items ih => rw [prettyItems, ih, List.map_cons]

theorem prettyEntries_eq (entries : List (String × Json)) (depth : Nat) :
    prettyEntries entries depth =
      entries.map fun entry => quoted entry.1 ++ ": " ++ entry.2.prettyAt depth := by
  induction entries with
  | nil => rfl
  | cons entry entries ih => rw [prettyEntries, ih, List.map_cons]

theorem compactItems_eq (items : List Json) : compactItems items = items.map compact := by
  induction items with
  | nil => rfl
  | cons item items ih => rw [compactItems, ih, List.map_cons]

theorem compactEntries_eq (entries : List (String × Json)) :
    compactEntries entries = entries.map fun entry => quoted entry.1 ++ ":" ++ entry.2.compact := by
  induction entries with
  | nil => rfl
  | cons entry entries ih => rw [compactEntries, ih, List.map_cons]

theorem IsPlain.prettyAt {named : String → Bool} {j : Json} (plain : j.IsPlain named)
    (depth : Nat) : j.WrittenAs (j.prettyAt depth).toList := by
  induction plain generalizing depth with
  | null => exact .null
  | bool value =>
    cases value with
    | true => exact .yes
    | false => exact .no
  | string contents =>
    rw [Json.prettyAt, toList_quoted]
    exact .string (spelledAs_escaped _)
  | array _ ih =>
    rw [Json.prettyAt, prettyItems_eq]
    exact .array (bracketed_block depth fun item member => ih item member (depth + 1))
  | object _ _ ih =>
    rw [Json.prettyAt, prettyEntries_eq]
    refine .object (bracketed_block depth fun entry member => ?_)
    have written := EntryWrittenAs.mk (spelledAs_escaped entry.1.toList) isBlanks_nil
      (isBlanks_singleton (c := ' ') (by decide)) (ih entry member (depth + 1))
    simpa [toList_quoted] using written

theorem IsPlain.compact {named : String → Bool} {j : Json} (plain : j.IsPlain named) :
    j.WrittenAs j.compact.toList := by
  induction plain with
  | null => exact .null
  | bool value =>
    cases value with
    | true => exact .yes
    | false => exact .no
  | string contents =>
    rw [Json.compact, toList_quoted]
    exact .string (spelledAs_escaped _)
  | array _ ih =>
    rw [Json.compact, compactItems_eq]
    exact .array (bracketed_intercalate ih)
  | object _ _ ih =>
    rw [Json.compact, compactEntries_eq]
    refine .object (bracketed_intercalate fun entry member => ?_)
    have written := EntryWrittenAs.mk (spelledAs_escaped entry.1.toList) isBlanks_nil isBlanks_nil
      (ih entry member)
    simpa [toList_quoted] using written

end Printing

end SchemaMigration.Json
