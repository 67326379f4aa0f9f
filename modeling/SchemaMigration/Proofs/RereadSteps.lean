import SchemaMigration.Proofs.RereadOptions

set_option autoImplicit false

namespace SchemaMigration.Source

open Source.Parser

namespace Parser

section Places

variable {α β : Type} {p : Parser α} {next : α → Parser β} {start : Cursor}
  {front s t rest : List Char} {First : α → Prop} {Told : β → Prop}

-- Reads `s` where the text `front` stands between a place passed earlier and the present one.
def TakesFrom (p : Parser α) (start : Cursor) (front s rest : List Char) (Told : α → Prop) : Prop :=
  ∃ a, p.run ⟨s ++ rest, start.offset + Text.byteLength front⟩ =
    some (a, ⟨rest, start.offset + Text.byteLength (front ++ s)⟩) ∧ Told a

theorem TakesFrom.bind (first : p.TakesFrom start front s (t ++ rest) First)
    (later : ∀ a, First a → (next a).TakesFrom start (front ++ s) t rest Told) :
    (p >>= next).TakesFrom start front (s ++ t) rest Told := by
  obtain ⟨a, read, told⟩ := first
  obtain ⟨b, done, result⟩ := later a told
  refine ⟨b, ?_, result⟩
  rw [run_bind, List.append_assoc, read, Option.bind_some, done, List.append_assoc]

theorem Takes.takesFrom (told : p.Takes s rest First) (start : Cursor) (front : List Char) :
    p.TakesFrom start front s rest First := by
  obtain ⟨a, read, first⟩ := told (start.offset + Text.byteLength front)
  exact ⟨a, by rw [read, Text.byteLength_append, Nat.add_assoc], first⟩

theorem Takes.bind_from (first : p.Takes s (t ++ rest) First)
    (later : ∀ a, First a → (next a).TakesFrom start (front ++ s) t rest Told) :
    (p >>= next).TakesFrom start front (s ++ t) rest Told :=
  (first.takesFrom start front).bind later

theorem Peeks.bind_from {a : α} (first : p.Peeks (t ++ rest) a)
    (later : (next a).TakesFrom start front t rest Told) :
    (p >>= next).TakesFrom start front t rest Told := by
  obtain ⟨b, done, result⟩ := later
  exact ⟨b, by rw [run_bind, first, Option.bind_some, done], result⟩

theorem takesFrom_guard {test : Prop} [Decidable test] {later : Unit → Parser β} (holds : test)
    (told : (later ()).TakesFrom start front s rest Told) :
    (guard test >>= later).TakesFrom start front s rest Told := by
  rw [guard, if_pos holds]
  exact told

theorem TakesFrom.orElse {other : Parser α} (told : p.TakesFrom start front s rest First) :
    (p <|> other).TakesFrom start front s rest First := by
  obtain ⟨a, read, first⟩ := told
  exact ⟨a, by rw [run_orElse, read, Option.some_or], first⟩

theorem TakesFrom.optionally (told : p.TakesFrom start front s rest First) :
    (optionally p).TakesFrom start front s rest fun a? => ∃ a, a? = some a ∧ First a := by
  obtain ⟨a, read, first⟩ := told
  refine ⟨some a, ?_, a, rfl, first⟩
  rw [Parser.optionally, run_orElse]
  change ((p >>= _).run _).or _ = _
  rw [run_bind, read]
  rfl

theorem takesFrom_lexeme {f : Lexeme → β} (place : start.rest = front ++ rest)
    (told : ∀ l, l.text = String.ofList front → Told (f l)) :
    (here >>= fun stop => pure (f (start.lexemeTo stop))).TakesFrom start front [] rest Told := by
  have text : start.lexemeTo ⟨rest, start.offset + Text.byteLength front⟩ =
      ⟨⟨start.offset, start.offset + Text.byteLength front⟩, String.ofList front⟩ :=
    Cursor.lexemeTo_eq place rfl
  refine ⟨f (start.lexemeTo ⟨rest, start.offset + Text.byteLength front⟩), ?_, ?_⟩
  next => rw [List.append_nil]; rfl
  next => exact told _ (by rw [text])

theorem takes_here_from {next : Cursor → Parser β}
    (later : ∀ start : Cursor, start.rest = s ++ rest →
      (next start).TakesFrom start [] s rest Told) :
    (here >>= next).Takes s rest Told := by
  intro offset
  obtain ⟨b, read, told⟩ := later ⟨s ++ rest, offset⟩ rfl
  exact ⟨b, read, told⟩

end Places

end Parser

namespace Grammar

variable {language : Language} {g : Grammar} {s rest : List Char}

inductive IsSteps (language : Language) : List Char → Prop where
  | nil : IsSteps language []
  | access {name s : List Char} (isName : IsName name) (later : IsSteps language s) :
      IsSteps language ('.' :: name ++ s)
  | call {items : List (List Char)} {t blank s : List Char}
      (list : ∀ rest, ItemList id (EndsEntry ')') (blank ++ ')' :: rest) items t)
      (blanks : IsBlank blank)
      (reads : ∀ item ∈ items, IsEntry language ')' true item fun _ => True)
      (later : IsSteps language s) : IsSteps language ('(' :: (t ++ (blank ++ [')'])) ++ s)

theorem operatorAt_access {name : List Char} (isName : IsName name) (after : List Char) :
    operatorAt ('.' :: (name ++ after)) = "." := by
  obtain ⟨c, t, same, start⟩ := isName.startsName.append after
  have point : '.' ≠ c := (ne_of_nameStart start (by decide)).symm
  rw [same]
  simp [operatorAt, operators, List.isPrefixOf, point]

theorem IsSteps.isSolid (steps : IsSteps language s) (ends : EndsValue rest) :
    IsSolid (s ++ rest) := by
  cases steps with
  | nil => exact ends.isSolid
  | access | call => exact isSolid_cons (by decide) (by decide)

theorem IsSteps.endsName (steps : IsSteps language s) (ends : EndsValue rest) :
    EndsName (s ++ rest) := by
  cases steps with
  | nil => exact ends.endsName
  | access | call =>
    rintro _ ⟨⟩
    decide

theorem IsSteps.operatorAt (steps : IsSteps language s) (ends : EndsValue rest) :
    operatorAt (s ++ rest) ∈ ["", "."] := by
  cases steps with
  | nil => simp [ends.operatorAt]
  | @access name s isName later =>
    rw [List.cons_append, List.cons_append, List.append_assoc, operatorAt_access isName]
    decide
  | call => simp [Source.operatorAt, operators]

theorem IsSteps.refuses_arrowBody (steps : IsSteps language s) (ends : EndsValue rest) :
    (g.arrowBody false).Refuses (s ++ rest) := by
  have next := peeks_nextOperator isBlank_nil (steps.isSolid ends)
  refine Refuses.bind (next.bind_refuses (refuses_guard fun same => ?_))
  have mark := steps.operatorAt ends
  rw [beq_iff_eq.mp same] at mark
  exact absurd mark (by decide)

section Steps

variable {start : Cursor} {front : List Char} {value : Expr}

def Verbatim (text : List Char) (e : Expr) : Prop :=
  Literal.ofExpr e = .raw (String.ofList text)

theorem takesFrom_access {name : List Char} (isName : IsName name) (ends : EndsName rest)
    (place : start.rest = front ++ ('.' :: name) ++ rest) :
    (g.placeOrCall start true value).TakesFrom start front ('.' :: name) rest
      (Verbatim (front ++ '.' :: name)) := by
  have solid : IsSolid ('.' :: name ++ rest) := isSolid_cons (by decide) (by decide)
  have mark : nextOperator.Peeks ('.' :: name ++ rest) "." := by
    have next := peeks_nextOperator isBlank_nil solid
    rwa [List.cons_append, operatorAt_access isName] at next
  have other {text : String} {x : Char} (single : text.toList = [x]) (differ : x ≠ '.') :
      (lookingAt text).Peeks ('.' :: name ++ rest) false :=
    peeks_lookingAt_other single differ isBlank_nil solid
  have point : (operator ".").Takes ['.'] (name ++ rest) fun _ => True :=
    takes_operator "." isBlank_nil solid (operatorAt_access isName rest)
  have unhidden : (token privateNameLength?).Refuses (name ++ rest) := by
    have starts := isName.startsName.append rest
    have solid := starts.isSolid
    obtain ⟨c, t, same, first⟩ := starts
    rw [same] at solid ⊢
    refine refuses_token isBlank_nil solid ?_
    unfold privateNameLength?
    split
    next hash => exact absurd (List.cons.inj hash).1 (ne_of_nameStart first (by decide))
    next => rfl
  have property : (token privateNameLength? <|> word).Takes name rest fun _ => True :=
    unhidden.orElse_takes ((takes_word isBlank_nil isName ends).mono fun _ _ => trivial)
  unfold placeOrCall
  refine mark.bind_from ?_
  rw [if_neg (by decide)]
  refine (other rfl (by decide)).bind_from ((other rfl (by decide)).bind_from ?_)
  refine Takes.bind_from (s := ['.']) point fun _ _ => ?_
  rw [← List.append_nil name]
  refine Takes.bind_from property fun property _ =>
    takesFrom_lexeme (f := fun l => Expr.access l value property) ?_ ?_
  next => rw [place]; simp
  next =>
    intro l text
    rw [Verbatim, Literal.ofExpr, text]
    simp

theorem takesFrom_call {call : List Char}
    (arguments : g.arguments.Takes ('(' :: call) rest fun _ => True)
    (place : start.rest = front ++ ('(' :: call) ++ rest) :
    (g.placeOrCall start true value).TakesFrom start front ('(' :: call) rest
      (Verbatim (front ++ '(' :: call)) := by
  have solid : IsSolid ('(' :: call ++ rest) := isSolid_cons (by decide) (by decide)
  have mark : nextOperator.Peeks ('(' :: call ++ rest) "" := by
    have next := peeks_nextOperator isBlank_nil solid
    rwa [show operatorAt ('(' :: call ++ rest) = "" by simp [operatorAt, operators]] at next
  have opening : (lookingAt "(").Peeks ('(' :: call ++ rest) true :=
    peeks_lookingAt "(" isBlank_nil solid
  unfold placeOrCall
  refine mark.bind_from ?_
  rw [if_neg (by decide)]
  refine opening.bind_from ?_
  rw [if_pos rfl, ← List.append_nil ('(' :: call)]
  refine takesFrom_guard rfl (Takes.bind_from arguments fun values _ =>
    takesFrom_lexeme (f := fun l => Expr.call l value values) place ?_)
  intro l text
  rw [Verbatim, Literal.ofExpr, text, List.append_nil]

def nextStep (g : Grammar) (start : Cursor) (value : Expr) : Parser (Option Expr) := do
  if false && (← g.lineEnds true) then return none
  else optionally (g.placeOrCall start true value <|> g.typedStep start true value)

theorem steps_eq (start : Cursor) (value : Expr) :
    g.steps false true start value = growing g.bound (g.nextStep start) value :=
  rfl

theorem takesFrom_growing {t : List Char} {rounds : Nat}
    (step : (g.placeOrCall start true value).TakesFrom start front s (t ++ rest)
      (Verbatim (front ++ s)))
    (later : ∀ grown, Verbatim (front ++ s) grown →
      (growing rounds (g.nextStep start) grown).TakesFrom start (front ++ s) t rest
        (Verbatim (front ++ s ++ t))) :
    (growing (rounds + 1) (g.nextStep start) value).TakesFrom start front (s ++ t) rest
      (Verbatim (front ++ (s ++ t))) := by
  have once : (g.nextStep start value).TakesFrom start front s (t ++ rest)
      fun e? => ∃ e, e? = some e ∧ Verbatim (front ++ s) e :=
    (peeks_lineEnds true _).bind_from step.orElse.optionally
  rw [growing, ← List.append_assoc]
  refine once.bind ?_
  rintro _ ⟨grown, rfl, told⟩
  exact later grown told

theorem takes_arguments_nested {bound depth : Nat} {items : List (List Char)}
    {t blank : List Char} (list : ItemList id (EndsEntry ')') (blank ++ ')' :: rest) items t)
    (blanks : IsBlank blank)
    (reads : ∀ item ∈ items, IsEntry language ')' true item fun _ => True)
    (roomy : t.length + 16 < bound) (deep : t.length + 15 < depth) :
    (nested language bound depth).arguments.Takes ('(' :: (t ++ (blank ++ [')']))) rest
      fun _ => True := by
  have each : ∀ item ∈ items, ∀ after, EndsEntry ')' after →
      ((nested language bound depth).value true).Takes (id item) after fun _ => True := by
    intro item member after stop
    have shorter := list.length_le item member
    rw [id_eq] at shorter
    exact reads item member bound depth (by omega) (by omega) after stop
  exact (takes_arguments list (readsValues_nested (by omega) depth) each blanks
    (by rw [bound_nested]; omega)).mono fun _ _ => trivial

theorem IsSteps.takesFrom {bound depth : Nat} (steps : IsSteps language s) (ends : EndsValue rest)
    (roomy : s.length + 16 ≤ bound) (deep : s.length + 15 ≤ depth) {rounds : Nat}
    (rounded : s.length < rounds) (place : start.rest = front ++ s ++ rest)
    (written : Verbatim front value) :
    (growing rounds ((nested language bound depth).nextStep start) value).TakesFrom start front s
      rest (Verbatim (front ++ s)) := by
  induction steps generalizing front value rounds with
  | nil =>
    have done : (growing rounds ((nested language bound depth).nextStep start) value).Peeks rest
        value := by
      refine peeks_growing (by omega) ((peeks_lineEnds true rest).bind_peeks ?_)
      exact ((refuses_placeOrCall ends start true value).orElse
        (refuses_typedStep ends start true value)).optionally
    rw [List.append_nil]
    exact (done.takes written).takesFrom start front
  | @access name s isName later ih =>
    simp only [List.length_append, List.length_cons] at roomy deep rounded
    obtain ⟨rounds, rfl⟩ : ∃ n, rounds = n + 1 := ⟨rounds - 1, by omega⟩
    have split : start.rest = front ++ ('.' :: name) ++ (s ++ rest) := by simp [place]
    refine takesFrom_growing (takesFrom_access isName (later.endsName ends) split) ?_
    intro grown told
    exact ih (by omega) (by omega) (by omega) (by rw [split, List.append_assoc _ s]) told
  | @call items t blank s list blanks reads later ih =>
    simp only [List.length_append, List.length_cons] at roomy deep rounded
    obtain ⟨rounds, rfl⟩ : ∃ n, rounds = n + 1 := ⟨rounds - 1, by omega⟩
    have arguments : (nested language bound depth).arguments.Takes
        ('(' :: (t ++ (blank ++ [')']))) (s ++ rest) fun _ => True :=
      takes_arguments_nested (list (s ++ rest)) blanks reads (by omega) (by omega)
    have split : start.rest = front ++ ('(' :: (t ++ (blank ++ [')']))) ++ (s ++ rest) := by
      simp [place]
    refine takesFrom_growing (takesFrom_call arguments split) ?_
    intro grown told
    exact ih (by omega) (by omega) (by omega) (by rw [split, List.append_assoc _ s]) told

theorem IsSteps.takes_countable {bound depth : Nat} {head : List Char}
    (steps : IsSteps language s) (ends : EndsValue rest)
    (roomy : (head ++ s).length + 16 ≤ bound) (deep : (head ++ s).length + 16 ≤ depth + 1)
    (opens : OpensValue (head ++ s ++ rest))
    (first : ((nested language bound depth).primary false).Takes head (s ++ rest) (Verbatim head)) :
    ((nested language bound depth).countable false).Takes (head ++ s) rest
      (Verbatim (head ++ s)) := by
  rw [List.length_append] at roomy deep
  have plain : wordAt (head ++ s ++ rest) ≠ "new" := fun same =>
    opens.word (by rw [same]; decide)
  have still := takes_trivia isBlank_nil opens.solid
  unfold countable
  refine Takes.bind (s := []) still fun _ _ => takes_here_from fun start place => ?_
  refine (peeks_wordAt_solid opens.solid).bind_from ?_
  rw [if_neg (by simpa using plain)]
  refine Takes.bind_from first fun value written => ?_
  have grown : ((nested language bound depth).steps false true start value).TakesFrom start head s
      rest (Verbatim (head ++ s)) := by
    rw [steps_eq, bound_nested]
    exact steps.takesFrom ends (by omega) (by omega) (by omega) place written
  rw [List.nil_append, ← List.append_nil s]
  refine grown.bind fun e told => (peeks_lineEnds true rest).bind_from ?_
  rw [List.append_nil]
  exact ends.peeks_nextOperator.bind_from ((takes_pure told).takesFrom start (head ++ s))

end Steps

end Grammar

end SchemaMigration.Source
