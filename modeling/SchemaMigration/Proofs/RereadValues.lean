import SchemaMigration.Field.Decode
import SchemaMigration.Proofs.NumberTokens
import SchemaMigration.Proofs.Rereading
import SchemaMigration.Proofs.StringContents
import SchemaMigration.Source.Program

set_option autoImplicit false

namespace SchemaMigration.Source

section Ends

def EndsEntry (close : Char) (rest : List Char) : Prop :=
  ∃ more, rest = ',' :: more ∨ rest = close :: more

-- What can follow a value: the end of an item of an array or of a call, or of the text.
def EndsValue (rest : List Char) : Prop :=
  rest = [] ∨ EndsEntry ']' rest ∨ EndsEntry ')' rest

variable {close : Char} {rest : List Char}

theorem EndsEntry.endsValue (ends : EndsEntry close rest) (bracket : close ∈ [']', ')']) :
    EndsValue rest := by
  simp only [List.mem_cons, List.not_mem_nil, or_false] at bracket
  rcases bracket with rfl | rfl
  next => exact .inr (.inl ends)
  next => exact .inr (.inr ends)

theorem EndsValue.eq_or (ends : EndsValue rest) :
    rest = [] ∨ ∃ c more, rest = c :: more ∧ c ∈ [',', ']', ')'] := by
  rcases ends with rfl | ⟨more, rfl | rfl⟩ | ⟨more, rfl | rfl⟩
  next => exact .inl rfl
  all_goals exact .inr ⟨_, more, rfl, by decide⟩

theorem EndsValue.all_head {p : Char → Bool} (ends : EndsValue rest)
    (marks : [',', ']', ')'].all p = true) : ∀ c ∈ rest.head?, p c = true := by
  obtain rfl | ⟨c, more, rfl, mark⟩ := ends.eq_or
  next => simp
  next =>
    rintro _ ⟨⟩
    exact List.all_eq_true.mp marks c mark

theorem EndsValue.isSolid (ends : EndsValue rest) : IsSolid rest := by
  have marked := ends.all_head (p := fun c => !isSpace c && c != '/') (by decide)
  cases rest with
  | nil => exact isSolid_nil
  | cons c more =>
    have here := marked c rfl
    simp only [Bool.and_eq_true, Bool.not_eq_true', bne_iff_ne] at here
    exact isSolid_cons here.1 here.2

theorem EndsValue.endsName (ends : EndsValue rest) : EndsName rest := fun c first => by
  simpa using ends.all_head (p := fun c => !isNameChar c && c != '\\') (by decide) c first

theorem EndsValue.endsNumber (ends : EndsValue rest) : EndsNumber rest := fun c first => by
  simpa using ends.all_head (p := fun c => !isNameChar c && c != '.') (by decide) c first

theorem EndsValue.operatorAt (ends : EndsValue rest) : operatorAt rest = "" := by
  rcases ends with rfl | ⟨more, rfl | rfl⟩ | ⟨more, rfl | rfl⟩ <;> rfl

theorem EndsValue.nameLength? (ends : EndsValue rest) : nameLength? rest = none := by
  rcases ends with rfl | ⟨more, rfl | rfl⟩ | ⟨more, rfl | rfl⟩ <;> rfl

end Ends

open Source.Parser

section Peeks

variable {rest : List Char}

def wordAt (s : List Char) : String :=
  (nameLength? s).elim "" fun n => String.ofList (s.take n)

theorem peeks_wordAt {blank s : List Char} (blanks : IsBlank blank) (solid : IsSolid s) :
    nextWord.Peeks (blank ++ s) (wordAt s) := by
  intro offset
  change some (_, _) = _
  simp only [Cursor.word, Cursor.ahead, drop_triviaLength blanks solid, wordAt]
  cases nameLength? s <;> rfl

theorem peeks_ahead_solid {s : List Char} (solid : IsSolid s) : ahead.Peeks s s :=
  peeks_ahead isBlank_nil solid

theorem peeks_wordAt_solid {s : List Char} (solid : IsSolid s) : nextWord.Peeks s (wordAt s) :=
  peeks_wordAt isBlank_nil solid

theorem peeks_nextOperator {blank s : List Char} (blanks : IsBlank blank) (solid : IsSolid s) :
    nextOperator.Peeks (blank ++ s) (operatorAt s) :=
  (peeks_ahead blanks solid).bind_peeks (peeks_pure _ _)

theorem takes_operator (text : String) {blank rest : List Char} (blanks : IsBlank blank)
    (solid : IsSolid (text.toList ++ rest)) (next : operatorAt (text.toList ++ rest) = text) :
    (operator text).Takes (blank ++ text.toList) rest fun _ => True := by
  have peek := peeks_nextOperator blanks solid
  rw [next, ← List.append_assoc] at peek
  refine peek.bind (takes_guard (beq_self_eq_true text) ?_)
  exact (takes_trivia blanks solid).bind fun _ _ => takes_skip text.toList rest

theorem EndsValue.peeks_nextOperator (ends : EndsValue rest) : nextOperator.Peeks rest "" := by
  have next := Source.peeks_nextOperator isBlank_nil ends.isSolid
  rwa [ends.operatorAt] at next

theorem EndsValue.peeks_nextWord (ends : EndsValue rest) : nextWord.Peeks rest "" :=
  peeks_nextWord_none isBlank_nil ends.isSolid ends.nameLength?

theorem EndsValue.peeks_lookingAt (ends : EndsValue rest) {text : String} {x : Char}
    (single : text.toList = [x]) (other : x ∉ [',', ']', ')']) :
    (lookingAt text).Peeks rest false := by
  have looking := Parser.peeks_lookingAt text isBlank_nil ends.isSolid
  rw [single] at looking
  have apart : [x].isPrefixOf rest = false := by
    obtain rfl | ⟨c, more, rfl, mark⟩ := ends.eq_or
    next => rfl
    next =>
      have differ : x ≠ c := fun same => other (same ▸ mark)
      simp [List.isPrefixOf, differ]
  rwa [apart] at looking

theorem takes_here {α : Type} {next : Cursor → Parser α} {s rest : List Char} {Told : α → Prop}
    (later : ∀ start : Cursor, start.rest = s ++ rest → (next start).Takes s rest Told) :
    (here >>= next).Takes s rest Told :=
  fun offset => later ⟨s ++ rest, offset⟩ rfl offset

theorem StartsName.not_lookingAt {text : String} {c : Char} {s : List Char} (starts : StartsName s)
    (single : text.toList = [c]) (dark : ¬(isNameStart c = true ∨ c = '\\')) :
    (lookingAt text).Peeks s false :=
  starts.peeks_lookingAt single dark isBlank_nil

theorem refuses_here {α : Type} {next : Cursor → Parser α} {s : List Char}
    (fails : ∀ start, (next start).Refuses s) : (here >>= next).Refuses s :=
  fun offset => fails ⟨s, offset⟩ offset

theorem Parser.Refuses.located_solid {α : Type} {p : Parser α} {s : List Char} (solid : IsSolid s)
    (fails : p.Refuses s) : (located p).Refuses s :=
  (takes_trivia isBlank_nil solid).bind_refuses fun _ _ => refuses_here fun _ => fails.bind

theorem peeks_growing {α : Type} {step : α → Parser (Option α)} {a : α} {s : List Char}
    {bound : Nat} (positive : 0 < bound) (done : (step a).Peeks s none) :
    (growing bound step a).Peeks s a := by
  obtain ⟨bound, rfl⟩ : ∃ n, bound = n + 1 := ⟨bound - 1, by omega⟩
  rw [growing]
  exact done.bind_peeks (peeks_pure _ _)

theorem peeks_nothing {α : Type} {step : Parser (Option α)} {s : List Char}
    (done : step.Peeks s none) {bound : Nat} (positive : 0 < bound) :
    (repeatedly bound step).Peeks s [] := by
  obtain ⟨bound, rfl⟩ : ∃ n, bound = n + 1 := ⟨bound - 1, by omega⟩
  exact done.repeatedly bound

theorem peeks_many {α : Type} {p : Parser α} {s : List Char} {bound : Nat} (positive : 0 < bound)
    (fails : p.Refuses s) : (many bound p).Peeks s [] :=
  peeks_nothing fails.optionally positive

end Peeks

section Trivia

variable {α β : Type} {p : Parser α}

-- White space and comments in front make no difference to what is read.
def Parser.SkipsTrivia (p : Parser α) : Prop :=
  ∀ c : Cursor, p.run (c.skip (triviaLength c.rest)) = p.run c

theorem isSolid_skip (c : Cursor) : IsSolid (c.skip (triviaLength c.rest)).rest := by
  rw [Cursor.skip_eq_drop]
  exact triviaFrom_drop 0 c.rest

theorem skipsTrivia_trivia {next : Unit → Parser β} : (trivia >>= next).SkipsTrivia := by
  intro c
  have still : trivia.run (c.skip (triviaLength c.rest)) = trivia.run c := by
    change some ((), Cursor.skip (triviaLength _) _) = _
    rw [isSolid_skip c]
    rfl
  rw [run_bind, still, run_bind]

theorem Parser.SkipsTrivia.bind {next : α → Parser β} (skips : p.SkipsTrivia) :
    (p >>= next).SkipsTrivia := by
  intro c
  rw [run_bind, run_bind, skips]

theorem Parser.SkipsTrivia.orElse {other : Parser α} (skips : p.SkipsTrivia)
    (skips' : other.SkipsTrivia) : (p <|> other).SkipsTrivia := by
  intro c
  rw [run_orElse, run_orElse, skips, skips']

theorem ahead_skip (c : Cursor) : (c.skip (triviaLength c.rest)).ahead = c.ahead := by
  rw [Cursor.ahead, isSolid_skip c, List.drop_zero, Cursor.skip_eq_drop]
  rfl

theorem skipsTrivia_nextWord {next : String → Parser β} (each : ∀ name, (next name).SkipsTrivia) :
    (nextWord >>= next).SkipsTrivia := by
  intro c
  have same : (c.skip (triviaLength c.rest)).word = c.word := by
    rw [Cursor.word, Cursor.word, ahead_skip]
  rw [run_bind, run_bind]
  change (next (c.skip _).word).run _ = (next c.word).run c
  rw [same, each]

theorem Parser.SkipsTrivia.takes {blank s rest : List Char} {Told : α → Prop}
    (skips : p.SkipsTrivia) (blanks : IsBlank blank) (told : p.Takes s rest Told) :
    p.Takes (blank ++ s) rest Told := by
  intro offset
  obtain ⟨a, read, holds⟩ := told (offset + Text.byteLength blank)
  refine ⟨a, ?_, holds⟩
  have passed : Cursor.skip (triviaLength (blank ++ s ++ rest)) ⟨blank ++ s ++ rest, offset⟩ =
      Cursor.skip (triviaLength (s ++ rest)) ⟨s ++ rest, offset + Text.byteLength blank⟩ := by
    have whole : blank.take (blank.length + triviaLength (s ++ rest)) = blank :=
      List.take_of_length_le (Nat.le_add_right _ _)
    rw [List.append_assoc, triviaLength_append blanks, Cursor.skip_eq_drop, Cursor.skip_eq_drop]
    simp [List.drop_append, List.take_append, whole, Nat.add_assoc]
  have same := skips ⟨blank ++ s ++ rest, offset⟩
  rw [passed, skips ⟨s ++ rest, offset + Text.byteLength blank⟩, read] at same
  rw [← same, Text.byteLength_append, Nat.add_assoc]

-- A parser that reads something does not start at the end of an item.
theorem Parser.SkipsTrivia.not_lookingAt {s rest : List Char} {Told : α → Prop}
    (skips : p.SkipsTrivia) (refuses : ∀ t, EndsValue t → p.Refuses t)
    (told : p.Takes s rest Told) {text : String} {x : Char} (single : text.toList = [x])
    (ends : ∀ more, EndsValue (x :: more)) : (lookingAt text).Peeks (s ++ rest) false := by
  intro offset
  refine congrArg (fun found => some (found, _)) ?_
  rw [single]
  by_contra looking
  rw [Bool.not_eq_false, List.isPrefixOf_iff_prefix] at looking
  obtain ⟨more, ahead⟩ := looking
  obtain ⟨a, read, -⟩ := told offset
  have fails := refuses _ (ends more) (offset + Text.byteLength
    ((s ++ rest).take (triviaLength (s ++ rest))))
  rw [← skips, Cursor.skip_eq_drop] at read
  rw [List.singleton_append] at ahead
  rw [ahead] at fails
  exact absurd (fails.symm.trans read) (by simp)

end Trivia

namespace Grammar

variable {g : Grammar} {rest : List Char}

theorem peeks_lineEnds (operator : Bool) (s : List Char) :
    (g.lineEnds operator).Peeks s ((g.endRule operator).endLength? [] s).isSome :=
  fun _ => rfl

section Steps

theorem refuses_placeOrCall (ends : EndsValue rest) (start : Cursor) (calls : Bool) (value : Expr) :
    (g.placeOrCall start calls value).Refuses rest := by
  unfold placeOrCall
  refine ends.peeks_nextOperator.bind_refuses ?_
  refine (ends.peeks_lookingAt rfl (by decide)).bind_refuses ?_
  refine (ends.peeks_lookingAt rfl (by decide)).bind_refuses ?_
  exact (ends.peeks_lookingAt rfl (by decide)).bind_refuses refuses_failure

theorem refuses_typedStep (ends : EndsValue rest) (start : Cursor) (calls : Bool) (value : Expr) :
    (g.typedStep start calls value).Refuses rest := by
  unfold typedStep typeArguments
  refine Refuses.guard_bind (ends.peeks_nextOperator.bind_refuses ?_)
  exact (ends.peeks_lookingAt rfl (by decide)).refuses_symbol.bind.bind

theorem peeks_steps (positive : 0 < g.bound) (ends : EndsValue rest) (calls : Bool)
    (start : Cursor) (value : Expr) : (g.steps false calls start value).Peeks rest value := by
  refine peeks_growing positive ((peeks_lineEnds true rest).bind_peeks ?_)
  exact ((refuses_placeOrCall ends start calls value).orElse
    (refuses_typedStep ends start calls value)).optionally

theorem peeks_isAssignable (chain : Chain) (s : List Char) :
    ∃ found, (g.isAssignable chain).Peeks s found := by
  unfold isAssignable
  split
  all_goals first | exact ⟨_, peeks_pure _ _⟩ | skip
  all_goals
    split
    · exact ⟨_, peeks_pure _ _⟩
    · exact ⟨_, peeks_pure _ _⟩

theorem refuses_chainStep (ends : EndsValue rest) (start : Cursor) (chain : Chain) :
    (g.chainStep false start chain).Refuses rest := by
  unfold chainStep
  refine ends.peeks_nextOperator.bind_refuses (ends.peeks_nextWord.bind_refuses ?_)
  obtain ⟨found, assignable⟩ := peeks_isAssignable (g := g) chain rest
  rw [if_neg (by decide), if_neg (by simp), if_neg (by decide)]
  exact assignable.bind_refuses (refuses_guard (by simp [assignmentOperators]))

end Steps

section Values

structure OpensValue (s : List Char) : Prop where
  solid : IsSolid s
  operator : operatorAt s ∉ ["!", "~", "-", "+", "++", "--", "..."]
  word : wordAt s ∉ ["typeof", "void", "delete", "await", "new", "yield"]
  angle : s.head? ≠ some '<'

variable {s : List Char}

theorem OpensValue.refuses_leadingOperator (opens : OpensValue s) :
    g.leadingOperator.Refuses s := by
  have other := opens.word
  have sign : ¬["!", "~", "-", "+", "++", "--"].contains (operatorAt s) = true := by
    have plain := opens.operator
    simp only [List.mem_cons, List.not_mem_nil, or_false, not_or] at plain
    simp [plain]
  have plain : ¬["typeof", "void", "delete", "await"].contains (wordAt s) = true := by
    simp only [List.mem_cons, List.not_mem_nil, or_false, not_or] at other
    simp [other]
  have angle : "<".toList.isPrefixOf s = false := by
    cases starts : "<".toList.isPrefixOf s with
    | false => rfl
    | true =>
      obtain ⟨more, rfl⟩ := List.isPrefixOf_iff_prefix.mp starts
      exact absurd rfl opens.angle
  have looking := peeks_lookingAt "<" isBlank_nil opens.solid
  unfold leadingOperator
  refine (peeks_nextOperator isBlank_nil opens.solid).bind_refuses ?_
  rw [if_neg sign]
  refine (peeks_wordAt_solid opens.solid).bind_refuses ?_
  rw [if_neg plain]
  refine looking.bind_refuses (refuses_guard ?_)
  rw [angle]
  simp

theorem OpensValue.takes_countable {Told : Expr → Prop} (opens : OpensValue (s ++ rest))
    (positive : 0 < g.bound) (ends : EndsValue rest)
    (value : (g.primary false).Takes s rest Told) : (g.countable false).Takes s rest Told := by
  have plain : ¬(wordAt (s ++ rest) == "new") = true := fun same =>
    opens.word (by simp [beq_iff_eq.mp same])
  unfold countable
  have still := takes_trivia isBlank_nil opens.solid
  refine Takes.bind (s := []) still fun _ _ => takes_here fun start _ => ?_
  refine (peeks_wordAt_solid opens.solid).bind ?_
  rw [if_neg plain]
  refine value.bind_nil fun e told => ?_
  refine (peeks_steps positive ends true start e).bind (t := []) ?_
  refine (peeks_lineEnds true rest).bind (t := []) ?_
  exact ends.peeks_nextOperator.bind (t := []) (takes_pure told)

theorem OpensValue.takes_operand {Told : Expr → Prop} (opens : OpensValue (s ++ rest))
    (positive : 0 < g.bound) (value : (g.countable false).Takes s rest Told) :
    (g.operand false).Takes s rest Told := by
  unfold operand
  have inner : (do
      let marks ← many g.bound g.leadingOperator
      return (marks, ← g.countable false) : Parser (List Unit × Expr)).Takes s rest
        fun read => read.1 = [] ∧ Told read.2 :=
    (peeks_many positive opens.refuses_leadingOperator).bind
      (value.gives fun e told => ⟨rfl, told⟩)
  refine (Takes.located_solid opens.solid inner).gives ?_
  rintro ⟨⟨_, e⟩, lexeme⟩ ⟨⟨⟨⟩, told⟩, -⟩
  exact told

theorem takes_expressionRule {Told : Expr → Prop} (solid : IsSolid (s ++ rest))
    (plain : wordAt (s ++ rest) ≠ "yield") (positive : 0 < g.bound) (ends : EndsValue rest)
    (first : (g.operand false).Takes s rest Told) : (g.expressionRule false).Takes s rest Told := by
  unfold expressionRule
  refine (peeks_wordAt_solid solid).bind ?_
  rw [if_neg (by simpa using plain)]
  have still := takes_trivia isBlank_nil solid
  refine Takes.bind (s := []) still fun _ _ => takes_here fun start _ => ?_
  refine first.bind_nil fun first told => ?_
  refine (peeks_growing positive ((peeks_lineEnds true rest).bind_peeks ?_)).bind (t := [])
    (takes_pure told)
  exact (refuses_chainStep ends start _).optionally

end Values

section Tokens

variable {s : List Char}

theorem isNameChar_of_isDigit {c : Char} (digit : c.isDigit = true) : isNameChar c = true :=
  isNameChar_of_accepted (by decide +kernel) digit

theorem operatorAt_of_isNameChar {c : Char} (named : isNameChar c = true) (t : List Char) :
    operatorAt (c :: t) = "" := by
  have table : ∀ x ∈ operators, x.toList.head?.all isNameChar = false := by decide
  have none : operators.find? (·.toList.isPrefixOf (c :: t)) = none := by
    rw [List.find?_eq_none]
    intro x member starts
    have dark := table x member
    obtain ⟨more, same⟩ := List.isPrefixOf_iff_prefix.mp starts
    cases chars : x.toList with
    | nil => simp [chars] at dark
    | cons first rest =>
      rw [chars, List.cons_append] at same
      obtain ⟨rfl, -⟩ := List.cons.inj same
      simp [chars, named] at dark
  rw [operatorAt, none]

theorem wordAt_of_not_isNameStart {c : Char} (dark : isNameStart c = false) (plain : c ≠ '\\')
    (t : List Char) : wordAt (c :: t) = "" := by
  simp [wordAt, nameLength?, nameCharLength?, dark, plain]

theorem opensValue_of_no_word {c : Char} {t : List Char} (solid : IsSolid (c :: t))
    (operator : operatorAt (c :: t) ∉ ["!", "~", "-", "+", "++", "--", "..."])
    (dark : isNameStart c = false) (plain : c ≠ '\\') (angle : c ≠ '<') : OpensValue (c :: t) where
  solid := solid
  operator := operator
  word := by
    rw [wordAt_of_not_isNameStart dark plain]
    decide
  angle := by simpa using angle

theorem opensValue_mark {c : Char} (mark : c ∈ ['\'', '"', '[', '\x7b', '(']) (t : List Char) :
    OpensValue (c :: t) := by
  simp only [List.mem_cons, List.not_mem_nil, or_false] at mark
  rcases mark with rfl | rfl | rfl | rfl | rfl
  all_goals
    exact opensValue_of_no_word (isSolid_cons (by decide) (by decide))
      (by simp [operatorAt, operators]) (by decide) (by decide) (by decide)

theorem ne_of_isDigit {c x : Char} (digit : c.isDigit = true) (other : x.isDigit = false) :
    c ≠ x := by
  rintro rfl
  rw [digit] at other
  cases other

theorem opensValue_digit {c : Char} (digit : c.isDigit = true) (t : List Char) :
    OpensValue (c :: t) := by
  have named := isNameChar_of_isDigit digit
  refine opensValue_of_no_word ?_ ?_ ?_ (ne_of_isDigit digit (by decide))
    (ne_of_isDigit digit (by decide))
  · exact isSolid_cons (isSpace_of_isNameChar named).1 (ne_of_isDigit digit (by decide))
  · rw [operatorAt_of_isNameChar named]
    decide
  · simp [isNameStart, digit]

theorem opensValue_fraction {c : Char} (digit : c.isDigit = true) (t : List Char) :
    OpensValue ('.' :: c :: t) := by
  refine opensValue_of_no_word (isSolid_cons (by decide) (by decide)) ?_ (by decide) (by decide)
    (by decide)
  have point : '.' ≠ c := (ne_of_isDigit digit (by decide)).symm
  have found : operatorAt ('.' :: c :: t) = "." := by
    simp [operatorAt, operators, List.isPrefixOf, point]
  rw [found]
  decide

theorem opensValue_string (string : IsString s) (rest : List Char) : OpensValue (s ++ rest) := by
  obtain ⟨q, body, quote, rfl, -⟩ := string.exists_contents
  refine opensValue_mark ?_ _
  rcases quote with rfl | rfl <;> decide

theorem opensValue_number (number : IsNumber s) (rest : List Char) : OpensValue (s ++ rest) := by
  obtain ⟨c, tail, rfl, digit | ⟨rfl, fraction⟩⟩ := number.exists_cons
  · exact opensValue_digit digit _
  · cases tail with
    | nil => cases fraction
    | cons d tail => exact opensValue_fraction (by simpa using fraction) _

theorem takes_primary_string (string : IsString s) (rest : List Char) :
    (g.primary false).Takes s rest fun e => ∃ l, e = .string l ∧ l.text = String.ofList s := by
  have opens := opensValue_string string rest
  have read : (token stringLength?).Takes s rest (·.text = String.ofList s) :=
    takes_token isBlank_nil opens.solid (string.stringLength?_append rest)
  obtain ⟨q, body, quote, rfl, -⟩ := string.exists_contents
  have kind : (q == '\'' || q == '"') = true := by rcases quote with rfl | rfl <;> rfl
  refine (peeks_ahead_solid opens.solid).bind ?_
  rw [List.cons_append]
  dsimp only
  rw [if_pos kind]
  exact read.gives fun l text => ⟨l, rfl, text⟩

theorem takes_primary_number (number : IsNumber s) (ends : EndsValue rest) :
    (g.primary false).Takes s rest fun e => ∃ l, e = .number l ∧ l.text = String.ofList s := by
  have opens := opensValue_number number rest
  have read : (token numberLength?).Takes s rest (·.text = String.ofList s) :=
    takes_token isBlank_nil opens.solid (number.numberLength?_append ends.endsNumber)
  obtain ⟨c, tail, rfl, first⟩ := number.exists_cons
  have quote : ¬(c == '\'' || c == '"') = true := by
    rcases first with digit | ⟨rfl, -⟩
    · simp [ne_of_isDigit digit]
    · decide
  have backtick : ¬(c == '\x60') = true := by
    rcases first with digit | ⟨rfl, -⟩
    · simp [ne_of_isDigit digit]
    · decide
  have kind : (c.isDigit || c == '.' && (tail ++ rest).head?.any Char.isDigit) = true := by
    rcases first with digit | ⟨rfl, fraction⟩
    · simp [digit]
    · cases tail with
      | nil => cases fraction
      | cons d tail => simpa using fraction
  refine (peeks_ahead_solid opens.solid).bind ?_
  rw [List.cons_append]
  dsimp only
  rw [if_neg quote, if_neg backtick, if_pos kind]
  exact read.gives fun l text => ⟨l, rfl, text⟩

end Tokens

section Words

variable {s : List Char}

theorem wordAt_name (name : IsName s) (ends : EndsName rest) :
    wordAt (s ++ rest) = String.ofList s := by
  simp [wordAt, name.nameLength?_append ends]

theorem operatorAt_startsName (starts : StartsName s) : operatorAt s = "" := by
  obtain ⟨c, t, rfl, start | rfl⟩ := starts
  · have named : isNameChar c = true := by
      simp only [isNameStart, Bool.and_eq_true] at start
      exact start.1
    exact operatorAt_of_isNameChar named t
  · simp [operatorAt, operators]

theorem opensValue_name (name : IsName s) (ends : EndsName rest)
    (plain : String.ofList s ∉ ["typeof", "void", "delete", "await", "new", "yield"]) :
    OpensValue (s ++ rest) := by
  have starts := name.startsName.append rest
  refine ⟨starts.isSolid, ?_, by rwa [wordAt_name name ends], ?_⟩
  · rw [operatorAt_startsName starts]
    decide
  · obtain ⟨c, t, same, start | rfl⟩ := starts
    · rw [same]
      rintro ⟨⟩
      exact absurd start (by decide)
    · rw [same]
      simp

theorem refuses_arrowBody (ends : EndsValue rest) : (g.arrowBody false).Refuses rest :=
  (ends.peeks_nextOperator.bind_refuses (refuses_guard (by decide))).bind

theorem refuses_asyncMark {name : String} (next : nextWord.Peeks s name) (plain : name ≠ "async") :
    (g.asyncMark false).Refuses s :=
  (next.refuses_keyword plain).bind

theorem refuses_arrowOrFunction {name : String} (solid : IsSolid s)
    (next : nextWord.Peeks s name) (plain : name ∉ ["async", "function"])
    (opening : (lookingAt "(").Peeks s false) (angle : (lookingAt "<").Peeks s false)
    (bare : (discard word >>= fun _ => g.arrowBody false).Refuses s) :
    (g.arrowOrFunction false).Refuses s := by
  have noMark : (discard (optionally (g.asyncMark false))).Peeks s PUnit.unit :=
    (refuses_asyncMark next fun same => plain (by simp [same])).optionally.bind_peeks
      (peeks_pure _ _)
  have arrow : (g.arrowFunction false).Refuses s := by
    refine Refuses.orElse bare ?_
    refine noMark.bind_refuses (opening.bind_refuses (angle.bind_refuses ?_))
    rw [if_neg (by simp)]
    exact bare
  have function : (g.functionLiteral false).Refuses s := by
    refine Refuses.bind (noMark.bind_refuses (Refuses.bind (next.refuses_keyword ?_)))
    exact fun same => plain (by simp [same])
  exact ((arrow.orElse function).located_solid solid).bind.bind

theorem refuses_arrowOrFunction_name (name : IsName s) (ends : EndsName rest)
    (body : (g.arrowBody false).Refuses rest) (plain : String.ofList s ∉ ["async", "function"]) :
    (g.arrowOrFunction false).Refuses (s ++ rest) := by
  have starts := name.startsName.append rest
  have read : (discard word).Takes s rest fun _ => True :=
    Takes.map ((takes_word isBlank_nil name ends).mono fun _ _ => trivial)
  refine refuses_arrowOrFunction starts.isSolid (peeks_nextWord isBlank_nil name ends) plain
    (starts.not_lookingAt rfl (by decide)) (starts.not_lookingAt rfl (by decide)) ?_
  exact read.bind_refuses fun _ _ => body

theorem ne_of_nameStart {c x : Char} (start : isNameStart c = true ∨ c = '\\')
    (dark : ¬(isNameStart x = true ∨ x = '\\')) : c ≠ x := by
  rintro rfl
  exact dark start

theorem isDigit_of_nameStart {c : Char} (start : isNameStart c = true ∨ c = '\\') :
    c.isDigit = false := by
  rcases start with start | rfl
  · simp only [isNameStart, Bool.and_eq_true, Bool.not_eq_true'] at start
    exact start.2
  · decide

theorem takes_primary_word {Told : Expr → Prop} (name : IsName s) (ends : EndsName rest)
    (body : (g.arrowBody false).Refuses rest) (plain : String.ofList s ∉ ["async", "function"])
    (value : g.wordValue.Takes s rest Told) : (g.primary false).Takes s rest Told := by
  have starts := name.startsName.append rest
  have refused := refuses_arrowOrFunction_name name ends body plain
  refine (peeks_ahead_solid starts.isSolid).bind ?_
  obtain ⟨c, t, same, start⟩ := starts
  have differ (x : Char) (dark : ¬(isNameStart x = true ∨ x = '\\')) : (c == x) = false :=
    beq_eq_false_iff_ne.mpr (ne_of_nameStart start dark)
  rw [same]
  dsimp only
  rw [differ '\'' (by decide), differ '"' (by decide), differ '\x60' (by decide),
    isDigit_of_nameStart start, differ '.' (by decide), differ '/' (by decide),
    differ '[' (by decide), differ '\x7b' (by decide), differ '(' (by decide),
    differ '#' (by decide), differ '@' (by decide), differ '<' (by decide)]
  exact refused.orElse_takes value

theorem takes_null (ends : EndsValue rest) :
    (g.primary false).Takes "null".toList rest fun e => ∃ l, e = .null l := by
  have name : IsName "null".toList := by decide
  refine takes_primary_word name ends.endsName (refuses_arrowBody ends) (by decide) ?_
  refine (peeks_nextWord_solid "null" name ends.endsName).bind ?_
  rw [if_pos (by decide)]
  exact (takes_word isBlank_nil name ends.endsName).gives fun l _ => ⟨l, rfl⟩

theorem takes_boolean (value : Bool) (ends : EndsValue rest) :
    (g.primary false).Takes (if value then "true" else "false").toList rest
      fun e => ∃ l, e = .boolean l value := by
  generalize written : (if value then "true" else "false") = word
  have name : IsName word.toList := by subst written; cases value <;> decide
  refine takes_primary_word name ends.endsName (refuses_arrowBody ends)
    (by subst written; cases value <;> decide) ?_
  refine (peeks_nextWord_solid word name ends.endsName).bind ?_
  rw [if_neg (by subst written; cases value <;> decide),
    if_pos (by subst written; cases value <;> decide)]
  refine (takes_word isBlank_nil name ends.endsName).gives fun l _ => ⟨l, ?_⟩
  subst written
  cases value <;> rfl

end Words

section Separators

theorem skipsTrivia_spread : g.spread.SkipsTrivia :=
  skipsTrivia_trivia.bind.bind

theorem skipsTrivia_expressionRule (breaks : Bool) : (g.expressionRule breaks).SkipsTrivia := by
  refine skipsTrivia_nextWord fun name => ?_
  split
  · exact skipsTrivia_trivia.bind.bind
  · exact skipsTrivia_trivia

theorem refuses_spread (ends : EndsValue rest) : g.spread.Refuses rest := by
  have none : (operator "...").Refuses rest :=
    ends.peeks_nextOperator.bind_refuses (refuses_guard (by decide))
  exact (none.bind.located_solid ends.isSolid).bind.bind

theorem EndsValue.refuses_word (ends : EndsValue rest) : word.Refuses rest :=
  refuses_token isBlank_nil ends.isSolid ends.nameLength?

theorem refuses_wordValue (ends : EndsValue rest) : g.wordValue.Refuses rest := by
  refine ends.peeks_nextWord.bind_refuses ?_
  rw [if_neg (by decide), if_neg (by decide), if_neg (by decide), if_neg (by decide),
    if_neg (by decide)]
  exact Refuses.guard_bind (EndsValue.refuses_word ends).bind

theorem refuses_primary (stops : EndsValue rest) : (g.primary false).Refuses rest := by
  have other : (g.arrowOrFunction false <|> g.wordValue).Refuses rest :=
    Refuses.orElse (refuses_arrowOrFunction stops.isSolid stops.peeks_nextWord (by decide)
      (stops.peeks_lookingAt rfl (by decide))
      (stops.peeks_lookingAt rfl (by decide)) (EndsValue.refuses_word stops).bind.bind)
      (refuses_wordValue stops)
  refine (peeks_ahead_solid stops.isSolid).bind_refuses ?_
  rcases stops with rfl | ⟨more, rfl | rfl⟩ | ⟨more, rfl | rfl⟩
  next => exact refuses_failure
  all_goals exact other

theorem refuses_expressionRule (positive : 0 < g.bound) (stops : EndsValue rest) :
    (g.expressionRule false).Refuses rest := by
  have still := takes_trivia isBlank_nil stops.isSolid
  have leading : g.leadingOperator.Refuses rest := by
    refine stops.peeks_nextOperator.bind_refuses (stops.peeks_nextWord.bind_refuses ?_)
    refine (stops.peeks_lookingAt rfl (by decide)).bind_refuses (refuses_guard ?_)
    simp
  have countable : (g.countable false).Refuses rest := by
    refine still.bind_refuses fun _ _ => refuses_here fun start => ?_
    exact stops.peeks_nextWord.bind_refuses (refuses_primary stops).bind
  have operand : (g.operand false).Refuses rest := by
    refine Refuses.bind (Refuses.located_solid stops.isSolid ?_)
    exact (peeks_many positive leading).bind_refuses countable.bind
  refine stops.peeks_nextWord.bind_refuses (still.bind_refuses fun _ _ => ?_)
  exact refuses_here fun start => operand.bind

end Separators

end Grammar

end SchemaMigration.Source
