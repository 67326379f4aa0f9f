import SchemaMigration.Field.Decode
import SchemaMigration.Proofs.NumberTokens
import SchemaMigration.Proofs.Rereading
import SchemaMigration.Proofs.StatementPlaces
import SchemaMigration.Proofs.StringContents

set_option autoImplicit false

namespace SchemaMigration.Source

def IsTemplate (s : List Char) : Prop :=
  isPlainTemplate s = true → ∃ body, s = '\x60' :: (body ++ ['\x60']) ∧ Contents ['\x60'] body

def Key.Lexed (key : Key) : Prop :=
  ∀ name ∈ optionName? key, Contents ['\n', '\r'] name.toList

-- The tokens in the expression are well formed, wherever an option could be read off them.
inductive Expr.Lexed : Expr → Prop where
  | atom {e : Expr} (isAtom : e.isAtom = true) : Lexed e
  | number {lexeme : Lexeme} (number : IsNumber lexeme.text.toList) : Lexed (.number lexeme)
  | string {lexeme : Lexeme} (string : IsString lexeme.text.toList) : Lexed (.string lexeme)
  | template {lexeme : Lexeme} (template : IsTemplate lexeme.text.toList) :
      Lexed (.template lexeme)
  | array {lexeme : Lexeme} {items : List Expr} (each : ∀ e ∈ items, Lexed e) :
      Lexed (.array lexeme items)
  | object {lexeme : Lexeme} {members : List ObjectMember}
      (keys : ∀ place key value, .pair place key value ∈ members → key.Lexed)
      (values : ∀ place key value, .pair place key value ∈ members → Lexed value) :
      Lexed (.object lexeme members)
  | call {lexeme : Lexeme} {callee : Expr} {arguments : List Expr}
      (each : ∀ a ∈ arguments, Lexed a) : Lexed (.call lexeme callee arguments)
  | parenthesized {lexeme : Lexeme} {inner : Expr} (lexed : Lexed inner) :
      Lexed (.parenthesized lexeme inner)
  | classLiteral {lexeme : Lexeme} {definition : ClassDefinition}
      (each : ∀ place key decorators, .field place key decorators ∈ definition.members →
        ∀ d ∈ decorators, Lexed d.expression) : Lexed (.classLiteral lexeme definition)

def ObjectMember.Lexed (m : ObjectMember) : Prop :=
  ∀ place key value, m = .pair place key value → key.Lexed ∧ value.Lexed

def ClassMember.Lexed (m : ClassMember) : Prop :=
  ∀ place key decorators, m = .field place key decorators → ∀ x ∈ decorators, x.expression.Lexed

theorem Expr.lexed_passedOn : Expr.PassedOn fun _ e _ => e.Lexed where
  widen lexed _ _ _ _ := lexed
  atom := .atom
  call := .call
  parenthesized := .parenthesized

section Templates

theorem isPlainTemplate_of_append {t s : List Char} (plain : isPlainTemplate (t ++ s) = true) :
    isPlainTemplate s = true := by
  induction t with
  | nil => exact plain
  | cons c t ih =>
    refine ih ?_
    rw [List.cons_append, isPlainTemplate.eq_def] at plain
    split at plain
    next => cases plain
    next _ _ _ same =>
      obtain ⟨-, rfl⟩ := List.cons.inj same
      exact plain
    next same => cases same

theorem not_mem_templateText {s : List Char} {c : Char}
    (member : c ∈ s.take (templateTextLength s)) : c ≠ '\\' ∧ c ∉ ['\x60'] := by
  fun_induction templateTextLength s with
  | case1 => cases member
  | case2 => cases member
  | case3 first rest goesOn ih =>
    rcases List.mem_cons.mp member with rfl | later
    · simp only [Bool.or_eq_true, not_or, beq_iff_eq] at goesOn
      exact ⟨goesOn.1.2, by simpa using goesOn.1.1⟩
    · exact ih later

inductive IsPiece : List Char → List Char → Prop where
  | text {t rest : List Char} (plain : ∀ c ∈ t, c ≠ '\\' ∧ c ∉ ['\x60']) : IsPiece t rest
  | escape {e rest : List Char} (escape : IsEscape e rest.head?) : IsPiece ('\\' :: e) rest
  | substitution {t rest : List Char} : IsPiece ('$' :: '\x7b' :: t) rest

theorem IsPiece.contents {t body rest : List Char} (piece : IsPiece t (body ++ rest))
    {after : List Char} (plain : isPlainTemplate (t ++ body ++ after) = true)
    (contents : Contents ['\x60'] body) : Contents ['\x60'] (t ++ body) := by
  cases piece with
  | text free => exact contents.append free
  | escape escape => exact .escape escape.before contents
  | substitution => cases plain

end Templates

namespace Parser

theorem ensures_token_text {length? : List Char → Option Nat} {Told : List Char → Prop}
    (told : ∀ s n, length? s = some n → Told (s.take n)) (c : Cursor) :
    (token length?).Ensures c fun l _ => Told l.text.toList := by
  refine (ensures_token length? c).mono ?_
  rintro _ _ - ⟨i, n, -, found, rfl, rfl⟩
  rw [Cursor.lexemeTo_skip, String.toList_ofList]
  exact told i.rest n found

theorem ensures_trivia (c : Cursor) : trivia.Ensures c fun _ d => IsSolid d.rest := by
  rintro _ _ ⟨⟩
  rw [Cursor.skip_eq_drop]
  exact triviaFrom_drop 0 c.rest

theorem ensures_skip (n : Nat) (c : Cursor) :
    (skip n).Ensures c fun _ d => c.rest = c.rest.take n ++ d.rest ∧ d.rest = c.rest.drop n := by
  rintro _ _ ⟨⟩
  rw [Cursor.skip_eq_drop]
  exact ⟨(List.take_append_drop n c.rest).symm, rfl⟩

theorem ensures_symbol {c : Cursor} (solid : IsSolid c.rest) (text : String) :
    (symbol text).Ensures c fun _ d => c.rest = text.toList ++ d.rest := by
  have looking : (lookingAt text).Ensures c fun found d =>
      d = c ∧ found = text.toList.isPrefixOf c.rest := by
    rintro _ _ ⟨⟩
    rw [Cursor.ahead, solid, List.drop_zero]
    exact ⟨rfl, rfl⟩
  have still : trivia.Ensures c fun _ d => d = c := by
    rintro _ _ ⟨⟩
    rw [solid]
    rfl
  refine looking.bind ?_
  rintro _ _ - ⟨rfl, rfl⟩
  refine ensures_guard fun starts => still.bind ?_
  rintro _ _ - rfl
  refine (ensures_skip text.length _).mono ?_
  rintro _ d - ⟨-, after⟩
  obtain ⟨rest, same⟩ := List.isPrefixOf_iff_prefix.mp starts
  rw [after, ← same, ← String.length_toList, List.drop_left]

end Parser

namespace Grammar

open Source.Parser

variable {g : Grammar}

section Templates

theorem ensures_templatePiece (c : Cursor) :
    g.templatePiece.Ensures c fun piece? d =>
      (piece? = none → d = c ∧ c.rest.head? = some '\x60') ∧
        (piece? ≠ none → ∃ t, c.rest = t ++ d.rest ∧ IsPiece t d.rest) := by
  unfold templatePiece
  refine ensures_here ?_
  split
  next rest text =>
    exact ensures_pure ⟨fun _ => ⟨rfl, by rw [text]; rfl⟩, fun given => absurd rfl given⟩
  next rest text =>
    split
    next n found =>
      refine (ensures_skip n c).bind fun _ d _ ⟨split, after⟩ => ensures_here (ensures_pure ?_)
      rw [text] at found
      obtain ⟨e, s, rfl, rfl, escape⟩ := exists_isEscape found
      have rest : d.rest = s := by rw [after, text, List.drop_succ_cons, List.drop_left]
      exact ⟨nofun, fun _ => ⟨'\\' :: e, by rw [text, rest]; rfl, .escape (by rwa [rest])⟩⟩
    next => exact ensures_failure
  next rest text =>
    refine (ensures_skip 2 c).bind fun _ m _ ⟨split, after⟩ => ?_
    refine ensures_bind fun _ m₁ le₁ => ensures_bind fun _ m₂ le₂ => ensures_here (ensures_pure ?_)
    obtain ⟨t, inner, -⟩ := le₁.trans le₂
    refine ⟨nofun, fun _ => ⟨'$' :: '\x7b' :: t, ?_, .substitution⟩⟩
    rw [split, inner, text]
    rfl
  next =>
    refine ensures_guard fun _ => (ensures_skip _ c).bind fun _ d _ ⟨split, _⟩ => ?_
    refine ensures_here (ensures_pure ⟨nofun, fun _ => ?_⟩)
    exact ⟨_, split, .text fun x => not_mem_templateText⟩

theorem ensures_templatePieces (bound : Nat) (c : Cursor) :
    (repeatedly bound g.templatePiece).Ensures c fun _ d => d.rest.head? = some '\x60' ∧
      ∃ body, c.rest = body ++ d.rest ∧
        ∀ after, isPlainTemplate (body ++ after) = true → Contents ['\x60'] body := by
  induction bound generalizing c with
  | zero => exact ensures_failure
  | succ bound ih =>
    refine (ensures_templatePiece c).bind fun piece? m _ told => ?_
    cases piece? with
    | none =>
      obtain ⟨rfl, closes⟩ := told.1 rfl
      exact ensures_pure ⟨closes, [], rfl, fun _ _ => .nil⟩
    | some _ =>
      obtain ⟨t, text, piece⟩ := told.2 nofun
      refine (ih m).bind fun _ d _ ⟨closes, body, later, contents⟩ => ensures_pure ⟨closes, ?_⟩
      rw [later] at text piece
      refine ⟨t ++ body, by rw [text, List.append_assoc], fun after plain => ?_⟩
      refine piece.contents plain (contents after ?_)
      rw [List.append_assoc] at plain
      exact isPlainTemplate_of_append plain

theorem ensures_template (c : Cursor) :
    g.template.Ensures c fun read _ => IsTemplate read.1.text.toList := by
  -- From the opening backtick to the closing one.
  have inner {i : Cursor} (solid : IsSolid i.rest) : (do
      symbol "\x60"
      let pieces ← repeatedly g.bound g.templatePiece
      skip 1
      return pieces : Parser (List Lexeme)).Ensures i fun _ d =>
        ∃ body, i.rest = '\x60' :: (body ++ ['\x60']) ++ d.rest ∧
          ∀ after, isPlainTemplate (body ++ after) = true → Contents ['\x60'] body := by
    refine (ensures_symbol solid "\x60").bind fun _ m _ opens => ?_
    refine (ensures_templatePieces g.bound m).bind fun pieces k _ ⟨closes, body, text, told⟩ => ?_
    refine (ensures_skip 1 k).bind fun _ d _ ⟨_, after⟩ => ensures_pure ⟨body, ?_, told⟩
    obtain ⟨rest, last⟩ := List.head?_eq_some_iff.mp closes
    rw [opens, text, after, last]
    simp
  have whole : (located do
      symbol "\x60"
      let pieces ← repeatedly g.bound g.templatePiece
      skip 1
      return pieces).Ensures c fun read _ => IsTemplate read.2.text.toList := by
    refine (ensures_trivia c).bind fun _ i _ solid => ensures_here ?_
    refine (inner solid).bind ?_
    rintro pieces d le ⟨body, text, contents⟩
    refine ensures_here (ensures_pure fun plain => ?_)
    rw [Cursor.lexemeTo_eq text (Cursor.offset_eq le text), String.toList_ofList] at plain ⊢
    exact ⟨body, rfl, contents ['\x60'] (isPlainTemplate_of_append (t := ['\x60']) plain)⟩
  exact whole.bind fun read d _ told => ensures_pure told

end Templates

def ReadsTokens (g : Grammar) : Prop :=
  ∀ breaks c, (g.expression breaks).Ensures c fun e _ => e.Lexed

theorem ensures_key (c : Cursor) : g.key.Ensures c fun key _ => key.Lexed := by
  have number (c : Cursor) :
      (token numberLength?).Ensures c fun l _ => (Key.mk .number l).Lexed := by
    refine (ensures_token_text (fun _ _ => isNumber_take) c).mono ?_
    rintro l _ - number _ ⟨⟩
    refine contents_of_plain fun x member => ?_
    have held := number.isNumberChar member
    constructor
    · rintro rfl
      exact absurd held (by decide)
    · have breaks : ['\n', '\r'].any isNumberChar = false := by decide
      intro stop
      exact List.any_eq_false.mp breaks x stop held
  have string (c : Cursor) :
      (token stringLength?).Ensures c fun l _ => (Key.mk .string l).Lexed := by
    refine (ensures_token_text (fun _ _ => isString_take) c).mono ?_
    rintro l _ - string _ ⟨⟩
    obtain ⟨q, body, quote, text, contents⟩ := string.exists_contents
    have kind : Text.isQuote q = true := by rcases quote with rfl | rfl <;> rfl
    rw [Text.unquote, text, Text.unquoteChars_quoted q body kind, String.toList_ofList]
    exact contents.mono fun x stop => List.mem_cons_of_mem q stop
  unfold key
  refine ensures_bind fun s m _ => ?_
  split
  · exact ensures_bind fun _ _ _ => ensures_pure (by rintro _ ⟨⟩)
  · exact ensures_bind fun _ _ _ => ensures_pure (by rintro _ ⟨⟩)
  · exact (string m).bind fun _ _ _ told => ensures_pure told
  · exact (string m).bind fun _ _ _ told => ensures_pure told
  · refine Ensures.ite ((number m).bind fun _ _ _ told => ensures_pure told) ?_
    refine (ensures_word m).bind fun l _ _ told => ensures_pure ?_
    rintro _ ⟨⟩
    exact told.2.contents
  · exact ensures_failure

theorem forall_of_inOrder {α : Type} {Holds : α → Prop} {as : List α} {c d : Cursor}
    (order : InOrder (fun _ a _ => Holds a) c as d) : ∀ a ∈ as, Holds a := by
  intro a member
  obtain ⟨-, -, -, -, -, holds⟩ := order.of_mem member
  exact holds

section Decorators

theorem isAtom_foldl_access (steps : List (Lexeme × Lexeme)) {e : Expr} (isAtom : e.isAtom = true) :
    (steps.foldl (fun object (property, lexeme) => Expr.access lexeme object property) e).isAtom =
      true := by
  induction steps generalizing e with
  | nil => exact isAtom
  | cons step steps ih => exact ih rfl

theorem decoratorExpression_lexed (reads : g.ReadsTokens) (c : Cursor) :
    g.decoratorExpression.Ensures c fun e _ => e.Lexed := by
  unfold decoratorExpression
  refine ensures_bind fun _ i _ => ensures_here (ensures_bind fun _ _ _ => ?_)
  refine ensures_bind fun steps _ _ => ensures_bind fun _ _ _ => ensures_if fun _ _ => ?_
  refine ensures_bind fun _ m _ => Ensures.ite ?_ ?_
  · refine (ensures_arguments Expr.lexed_passedOn reads m).bind fun _ _ _ each => ?_
    exact ensures_here (ensures_pure (.call each))
  · exact ensures_pure (.atom (isAtom_foldl_access steps rfl))

theorem decorator_lexed (reads : g.ReadsTokens) (c : Cursor) :
    g.decorator.Ensures c fun x _ => x.expression.Lexed := by
  unfold decorator
  refine ensures_located (fun _ e _ => e.Lexed) (fun i _ => ?_) fun e i d _ _ lexed =>
    ensures_pure lexed
  refine ensures_bind fun _ _ _ => ensures_bind fun hidden _ _ => ensures_bind fun _ m _ => ?_
  have group : (Expr.other <$> extent (symbol "(" *> g.sequence false *> symbol ")")).Ensures m
      fun e _ => e.Lexed :=
    Ensures.map ((ensures_true _ m).mono fun _ _ _ _ => .atom rfl)
  refine group.either (decoratorExpression_lexed reads m) fun e d _ lexed => ensures_pure ?_
  cases hidden with
  | none => exact lexed
  | some place => exact .atom rfl

theorem decorators_lexed (reads : g.ReadsTokens) (c : Cursor) :
    g.decorators.Ensures c fun xs _ => ∀ x ∈ xs, x.expression.Lexed := by
  unfold decorators
  refine Ensures.mono (@ensures_repeatedly _ _ (fun _ (x : Decorator) _ => x.expression.Lexed) some
    _ (fun c => ?_) g.bound c) fun xs d _ order => ?_
  · refine ensures_bind fun _ m cm => Ensures.ite ?_ (ensures_pure nofun)
    refine (decorator_lexed reads m).bind fun x d md lexed => ensures_pure ?_
    rintro _ ⟨⟩ _ ⟨⟩
    exact ⟨m, d, cm, md, le_rfl, lexed⟩
  · rw [List.filterMap_some] at order
    exact forall_of_inOrder order

end Decorators

section Objects

theorem namedMember_lexed (reads : g.ReadsTokens) (c : Cursor) :
    g.namedMember.Ensures c fun make _ => ∀ l, (make l).Lexed := by
  unfold namedMember
  refine ensures_bind fun _ _ _ => ensures_bind fun _ m _ => ?_
  refine (ensures_key m).bind fun key _ _ lexed => ?_
  refine ensures_bind fun _ _ _ => ensures_bind fun _ _ _ => ensures_bind fun _ _ _ => ?_
  split
  · refine ensures_guard fun _ => ensures_bind fun _ _ _ => ensures_if fun _ _ => ?_
    exact ensures_bind fun _ _ _ => ensures_bind fun _ _ _ => ensures_pure (by rintro l _ _ _ ⟨⟩)
  · refine ensures_guard fun _ => ensures_bind fun _ _ _ => ?_
    split
    · refine ensures_bind fun _ m _ => (reads false m).bind fun value _ _ told => ensures_pure ?_
      rintro l _ _ _ ⟨⟩
      exact ⟨lexed, told⟩
    · exact ensures_guard fun _ => ensures_pure (by rintro l _ _ _ ⟨⟩)

theorem objectMember_lexed (reads : g.ReadsTokens) (c : Cursor) :
    g.objectMember.Ensures c fun m d => ∃ i, c ≤ i ∧ i ≤ d ∧ m.Lexed := by
  have told : g.objectMember.Ensures c fun m _ => m.Lexed := by
    unfold objectMember
    refine ensures_bind fun _ m _ => Ensures.ite ?_ ?_
    · exact ensures_bind fun _ _ _ => ensures_pure (by rintro _ _ _ ⟨⟩)
    · exact ensures_located (fun _ make _ => ∀ l, (make l).Lexed)
        (fun i _ => namedMember_lexed reads i) fun make i d _ _ told => ensures_pure (told _)
  exact told.mono fun m d cd lexed => ⟨c, le_rfl, cd, lexed⟩

theorem objectLiteral_lexed (reads : g.ReadsTokens) (c : Cursor) :
    g.objectLiteral.Ensures c fun e _ => e.Lexed := by
  refine (@ensures_objectLiteral g (fun _ m _ => m.Lexed) (by rintro _ _ _ _ _ ⟨⟩)
    (objectMember_lexed reads) c).mono ?_
  rintro _ d - ⟨lexeme, members, rfl, order⟩
  have each := forall_of_inOrder order
  exact .object (fun place key value member => (each _ member place key value rfl).1)
    fun place key value member => (each _ member place key value rfl).2

end Objects

section Classes

theorem classNamedMember_lexed {decorators : List Decorator}
    (each : ∀ x ∈ decorators, x.expression.Lexed) (c : Cursor) :
    (g.classNamedMember decorators).Ensures c fun make _ => ∀ l, (make l).Lexed := by
  unfold classNamedMember
  refine ensures_bind fun _ _ _ => ensures_bind fun _ _ _ => ensures_bind fun _ _ _ => ?_
  split
  · refine ensures_bind fun _ _ _ => ensures_if fun _ _ => ?_
    refine ensures_bind fun _ _ _ => ensures_bind fun _ _ _ => ?_
    split
    · exact ensures_bind fun _ _ _ => ensures_bind fun _ _ _ => ensures_pure (by rintro l _ _ _ ⟨⟩)
    · exact ensures_bind fun _ _ _ => ensures_bind fun _ _ _ => ensures_pure (by rintro l _ _ _ ⟨⟩)
  · refine ensures_bind fun _ _ _ => ensures_bind fun _ _ _ => ensures_pure ?_
    rintro l _ _ _ ⟨⟩
    exact each

theorem classMember_lexed (reads : g.ReadsTokens) (c : Cursor) :
    g.classMember.Ensures c fun m d => ∃ i, c ≤ i ∧ i ≤ d ∧ m.Lexed := by
  unfold classMember
  refine ensures_located (fun _ make _ => ∀ l, (make l).Lexed) (fun i _ => ?_)
    fun make i d ci id told => ensures_pure ⟨i, ci, id, told _⟩
  refine (decorators_lexed reads i).bind fun decorators _ _ each => ?_
  refine ensures_bind fun _ _ _ => ensures_bind fun _ m _ => ?_
  refine Ensures.ite (ensures_pure (by rintro l _ _ _ ⟨⟩)) ?_
  refine Ensures.orElse ?_ (Ensures.orElse ?_ (classNamedMember_lexed each m))
  · exact ensures_seqRight fun _ _ => ensures_bind fun _ _ _ => ensures_bind fun _ _ _ =>
      ensures_pure (by rintro l _ _ _ ⟨⟩)
  · exact ensures_bind fun _ _ _ => ensures_bind fun _ _ _ => ensures_bind fun _ _ _ =>
      ensures_pure (by rintro l _ _ _ ⟨⟩)

theorem classRest_lexed (reads : g.ReadsTokens) (named : Bool) (c : Cursor) :
    (g.classRest named).Ensures c fun definition _ => ∀ m ∈ definition.members, m.Lexed :=
  (@ensures_classRest g (fun _ m _ => m.Lexed) (by rintro _ _ _ _ _ ⟨⟩)
    (classMember_lexed reads) named c).mono fun _ _ _ => forall_of_inOrder

theorem classLiteral_lexed (reads : g.ReadsTokens) (c : Cursor) :
    g.classLiteral.Ensures c fun e _ => e.Lexed := by
  refine (@ensures_classLiteral g (fun _ m _ => m.Lexed) (by rintro _ _ _ _ _ ⟨⟩)
    (classMember_lexed reads) c).mono ?_
  rintro _ d - ⟨lexeme, definition, rfl, order⟩
  exact .classLiteral fun place key decorators member =>
    forall_of_inOrder order _ member place key decorators rfl

end Classes

theorem literals_lexed (reads : g.ReadsTokens) : g.ReadsLiterals fun _ e _ => e.Lexed where
  string c := (ensures_token_text (fun _ _ => isString_take) c).mono fun _ _ _ => .string
  template c := (ensures_template c).mono fun _ _ _ => .template
  number c := (ensures_token_text (fun _ _ => isNumber_take) c).mono fun _ _ _ => .number
  array c := by
    unfold arrayLiteral
    exact ensures_located (fun _ items _ => ∀ e ∈ items, e.Lexed)
      (fun i _ => ensures_bind fun _ m _ => ensures_items Expr.lexed_passedOn reads "]" m)
      fun items i d _ _ each => ensures_pure (.array each)
  object := objectLiteral_lexed reads
  classLiteral := classLiteral_lexed reads

theorem nested_readsTokens (language : Language) (bound depth : Nat) :
    (nested language bound depth).ReadsTokens :=
  nested_reads Expr.lexed_passedOn (fun _ => literals_lexed) language bound depth

end Grammar

end SchemaMigration.Source
