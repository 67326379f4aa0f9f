import SchemaMigration.Proofs.MemberPlaces
import SchemaMigration.Proofs.Tokens

set_option autoImplicit false

namespace SchemaMigration.Source

def Declared.Ordered (c d : Cursor) : Declared → Prop
  | .classDefinition _ definition =>
    c.offset < d.offset ∧ InOrder ClassMember.ReadAt c definition.members d
  | .variables _ declarators =>
    c.offset < d.offset ∧ ∀ x ∈ declarators, ∀ e ∈ x.value, e.Ordered c d
  | .other _ => True

theorem Declared.Ordered.widen {c d : Cursor} {x : Declared} (ordered : x.Ordered c d)
    {b e : Cursor} (left : b ≤ c) (right : d ≤ e) : x.Ordered b e := by
  have le := Cursor.offset_le left
  have le' := Cursor.offset_le right
  match x, ordered with
  | .classDefinition .., ⟨lt, order⟩ => exact ⟨by omega, order.widen left right⟩
  | .variables .., ⟨lt, each⟩ =>
    exact ⟨by omega, fun x member e value => (each x member e value).widen left right⟩
  | .other _, _ => trivial

def Exported.Ordered (c d : Cursor) : Exported → Prop
  | .declared x => x.Ordered c d
  | .value e => e.Ordered c d

theorem Exported.Ordered.widen {c d : Cursor} {x : Exported} (ordered : x.Ordered c d)
    {b e : Cursor} (left : b ≤ c) (right : d ≤ e) : x.Ordered b e := by
  cases x with
  | declared x => exact Declared.Ordered.widen ordered left right
  | value e => exact Expr.Ordered.widen ordered left right

def ImportBinding.HasPlainName (b : ImportBinding) : Prop :=
  ∀ x ∈ b.localName.toList, x ∉ separators

structure ImportBinding.IsRead (typed : Bool) (b : ImportBinding) : Prop where
  name : IsName b.localName.toList
  imported : b.imported ≠ .named "default"
  typed : b.isTypeOnly = true → typed = true

theorem ImportBinding.IsRead.hasPlainName {typed : Bool} {b : ImportBinding}
    (read : b.IsRead typed) : b.HasPlainName :=
  read.name.plain

def Grouped (bindings : List ImportBinding) : Prop :=
  (∃ name, bindings = [⟨name, .wholeModule, false⟩]) ∨
    ∀ b ∈ bindings, b.imported ≠ .wholeModule

def Ranked (bindings : List ImportBinding) : Prop :=
  Grouped bindings ∨
    ∃ name more, bindings = ⟨name, .defaultExport, false⟩ :: more ∧ Grouped more

structure ImportClause.ReadWithin (c d : Cursor) (clause : ImportClause) : Prop where
  literal : ∃ i j q body, c ≤ i ∧ i ≤ j ∧ j ≤ d ∧ Text.isQuote q = true ∧ q.utf8Size = 1 ∧
    i.rest = q :: (body ++ q :: j.rest) ∧ clause.specifier = i.lexemeTo j
  names : ∀ b ∈ clause.bindings, b.HasPlainName

def Statement.Ordered (c d : Cursor) : Statement → Prop
  | .importFrom _ clause => clause.ReadWithin c d
  | .exportDefault _ exported => c.offset < d.offset ∧ exported.Ordered c d
  | .exportDeclared _ x | .declared x => x.Ordered c d
  | .importOther _ | .other _ => True

def Statement.ReadAt (i : Cursor) (s : Statement) (j : Cursor) : Prop :=
  s.lexeme = i.lexemeTo j ∧ s.Ordered i j

namespace Parser

theorem ensures_string (c : Cursor) :
    (token stringLength?).Ensures c fun l d => ∃ i q body, c ≤ i ∧ i ≤ d ∧
      Text.isQuote q = true ∧ q.utf8Size = 1 ∧ i.rest = q :: (body ++ q :: d.rest) ∧
      l = i.lexemeTo d := by
  refine (ensures_token stringLength? c).mono ?_
  rintro _ _ - ⟨i, n, ci, found, rfl, rfl⟩
  obtain ⟨q, body, after, rest, rfl, isQuote, size⟩ := stringLength?_eq found
  refine ⟨i, q, body, ci, i.le_skip _, isQuote, size, ?_, rfl⟩
  simp [Cursor.skip_eq_drop, rest]

theorem ensures_word (c : Cursor) :
    word.Ensures c fun l d => c.offset < d.offset ∧ IsName l.text.toList := by
  refine (ensures_token nameLength? c).mono ?_
  rintro _ _ - ⟨i, n, ci, found, rfl, rfl⟩
  have nonempty := nameLength?_pos found
  rw [Cursor.lexemeTo_skip, Cursor.skip_eq_drop]
  refine ⟨?_, by simpa using isName_take found⟩
  have le := Cursor.offset_le ci
  cases taken : i.rest.take n with
  | nil => simp [taken] at nonempty
  | cons x rest =>
    have size := x.utf8Size_pos
    simp only [Text.byteLength_cons]
    omega

theorem ensures_keyword (text : String) (c : Cursor) :
    (keyword text).Ensures c fun _ d => c.offset < d.offset := by
  unfold keyword
  refine ensures_bind fun _ m cm => ensures_guard fun _ => ?_
  refine Ensures.map ((ensures_word m).mono fun _ d _ told => ?_)
  have := Cursor.offset_le cm
  omega

theorem Ensures.advances {α β : Type} {p : Parser α} {next : α → Parser β} {c : Cursor}
    (first : p.Ensures c fun _ d => c.offset < d.offset) :
    (p >>= next).Ensures c fun _ d => c.offset < d.offset := by
  refine first.bind fun a m _ lt b d read => ?_
  have le := Cursor.offset_le ((next a).forward read)
  omega

end Parser

namespace Grammar

open Source.Parser

variable {g : Grammar}

section Declarations

theorem ensures_classRest_nonempty (named : Bool) (c : Cursor) :
    (g.classRest named).Ensures c fun _ d => c.offset < d.offset := by
  unfold classRest
  exact (ensures_keyword "class" c).advances

theorem ensures_classDeclaration (operator : Bool) (c : Cursor) :
    (g.classDeclaration operator).Ensures c fun x d =>
      ∃ i, c ≤ i ∧ i ≤ d ∧ x.lexeme = i.lexemeTo d ∧ x.Ordered i d := by
  have rest (i m : Cursor) (im : i ≤ m) : (g.classRest true).Ensures m fun definition d =>
      i.offset < d.offset ∧ InOrder ClassMember.ReadAt i definition.members d := by
    intro definition d read
    have le := Cursor.offset_le im
    have lt := ensures_classRest_nonempty true m definition d read
    exact ⟨by omega, (classRest_ordered true m definition d read).widen im le_rfl⟩
  unfold classDeclaration
  refine ensures_located (fun i definition d =>
    i.offset < d.offset ∧ InOrder ClassMember.ReadAt i definition.members d) (fun i _ => ?_)
    fun definition i d ci id told => ensures_pure ⟨i, ci, id, rfl, told⟩
  refine ensures_bind fun _ m₁ le₁ => ensures_bind fun _ m₂ le₂ => Ensures.ite ?_ ?_
  · exact ensures_bind fun _ m₃ le₃ => rest i m₃ (le₁.trans (le₂.trans le₃))
  · refine (rest i m₂ (le₁.trans le₂)).bind fun definition d _ ⟨lt, order⟩ => ?_
    refine ensures_bind fun _ e de => ensures_pure ⟨?_, order.widen le_rfl de⟩
    have := Cursor.offset_le de
    omega

theorem ensures_declarator {Told : Cursor → Expr → Cursor → Prop} (passed : Expr.PassedOn Told)
    (reads : g.Reads Told) (c : Cursor) :
    g.declarator.Ensures c fun x d => ∀ e ∈ x.value, Told c e d := by
  unfold declarator
  refine ensures_bind fun name m₁ le₁ => ensures_bind fun _ m₂ le₂ => ensures_if fun m₃ le₃ => ?_
  refine ensures_bind fun _ m₄ le₄ => ?_
  have initializer : (g.optionalInitializer true).Ensures m₄ fun e? d => ∀ e ∈ e?, Told m₄ e d := by
    refine ensures_bind fun _ m₅ le₅ => Ensures.ite (ensures_bind fun _ m₆ le₆ => ?_) ?_
    · refine (reads true m₆).bind fun e d _ told => ensures_pure ?_
      rintro _ ⟨⟩
      exact passed.widen told (le₅.trans le₆) le_rfl
    · exact ensures_pure nofun
  refine initializer.bind fun value d _ told => ensures_pure fun e held => ?_
  exact passed.widen (told e held) (le₁.trans (le₂.trans (le₃.trans le₄))) le_rfl

theorem ensures_declarators {Told : Cursor → Expr → Cursor → Prop} (passed : Expr.PassedOn Told)
    (reads : g.Reads Told) (c : Cursor) :
    g.declarators.Ensures c fun xs d => ∀ x ∈ xs, ∀ e ∈ x.value, Told c e d := by
  unfold declarators
  refine (ensures_declarator passed reads c).bind fun first m cm told => ?_
  refine (@ensures_many _ (fun i (x : Declarator) j => ∀ e ∈ x.value, Told i e j) _
    (fun c => ensures_bind fun _ m cm => ?_) _ m).bind fun more d md order => ensures_pure ?_
  · exact (ensures_declarator passed reads m).mono fun x d _ each e held =>
      passed.widen (each e held) cm le_rfl
  · intro x member e held
    rcases List.mem_cons.mp member with rfl | later
    · exact passed.widen (told e held) le_rfl md
    · obtain ⟨i, j, mi, -, jd, each⟩ := order.of_mem later
      exact passed.widen (each e held) (cm.trans mi) jd

theorem ensures_variableDeclaration (reads : g.ReadsExpressions) (couldBeName : Bool) (c : Cursor) :
    (g.variableDeclaration couldBeName).Ensures c fun x d =>
      ∃ i, c ≤ i ∧ i ≤ d ∧ x.lexeme = i.lexemeTo d ∧ x.Ordered i d := by
  unfold variableDeclaration
  refine ensures_located (fun i declarators d =>
    i.offset < d.offset ∧ ∀ x ∈ declarators, ∀ e ∈ x.value, e.Ordered i d) (fun i _ => ?_)
    fun declarators i d ci id told => ensures_pure ⟨i, ci, id, rfl, told⟩
  have start : (keyword "const" <|> g.declarationWord couldBeName "let" <|> keyword "var").Ensures i
      fun _ d => i.offset < d.offset := by
    exact (ensures_keyword _ i).orElse
      ((ensures_keyword _ i).advances.orElse (ensures_keyword _ i))
  refine start.bind fun _ m im lt => ?_
  refine (ensures_declarators Expr.ordered_passedOn reads m).bind fun xs d md told => ?_
  refine ensures_bind fun _ e de => ensures_pure ⟨?_, fun x member value held => ?_⟩
  · have := Cursor.offset_le (md.trans de)
    omega
  · exact (told x member value held).widen im de

theorem ensures_declaration (reads : g.ReadsExpressions) (operator : Bool) (c : Cursor) :
    (g.declaration operator).Ensures c fun x d =>
      ∃ i, c ≤ i ∧ i ≤ d ∧ x.lexeme = i.lexemeTo d ∧ x.Ordered i d := by
  refine Ensures.orElse (Ensures.map ?_) (Ensures.orElse ?_ ?_)
  · refine (ensures_extent _ c).mono ?_
    rintro _ d - ⟨i, ci, id, rfl⟩
    exact ⟨i, ci, id, rfl, trivial⟩
  · exact ensures_variableDeclaration reads operator c
  · exact ensures_classDeclaration operator c

end Declarations

section Imports

theorem ensures_separated {α : Type} {item : Parser α} {Holds : α → Prop}
    (each : ∀ c, item.Ensures c fun a _ => Holds a) (close : String) (c : Cursor) :
    (g.separated close item).Ensures c fun as d => InOrder (fun _ a _ => Holds a) c as d := by
  unfold separated
  refine (@ensures_repeatedly _ _ (fun _ a _ => Holds a) some _ (fun c => ?_) _ c).bind
    fun items d _ order => ensures_bind fun _ e de => ensures_pure ?_
  · refine ensures_bind fun _ m cm => Ensures.ite (ensures_pure nofun) ?_
    refine (each m).bind fun a d md holds => ensures_bind fun _ d₁ le₁ => ?_
    have kept (e : Cursor) (de : d ≤ e) : ∀ a' ∈ some a, ∀ b ∈ some a',
        ∃ i j, c ≤ i ∧ i ≤ j ∧ j ≤ e ∧ Holds b := by
      rintro _ ⟨⟩ _ ⟨⟩
      exact ⟨m, d, cm, md, de, holds⟩
    refine Ensures.ite ?_ ?_
    · exact ensures_bind fun _ e le₂ => ensures_pure (kept e (le₁.trans le₂))
    · exact ensures_bind fun _ d₂ le₂ => ensures_guard fun _ =>
        ensures_pure (kept d₂ (le₁.trans le₂))
  · simpa using order.widen le_rfl de

theorem ensures_separatedNames {α : Type} {item : Parser α} {Holds : α → Prop}
    (each : ∀ c, item.Ensures c fun a _ => Holds a) (close : String) (c : Cursor) :
    (g.separatedNames close item).Ensures c fun as _ => ∀ a ∈ as, Holds a := by
  refine Ensures.orElse ((ensures_separated each close c).mono ?_) ?_
  · intro as d _ order a member
    obtain ⟨-, -, -, -, -, holds⟩ := order.of_mem member
    exact holds
  · exact ensures_bind fun _ _ _ => ensures_bind fun _ _ _ => ensures_pure (by simp)

theorem ensures_moduleName (c : Cursor) :
    moduleName.Ensures c fun l _ => Text.unquote l.text = l.text → IsName l.text.toList := by
  refine Ensures.orElse ((ensures_string c).mono ?_) ((ensures_word c).mono ?_)
  · rintro _ d - ⟨i, q, body, -, id, isQuote, -, rest, rfl⟩ same
    -- A quoted name loses its quotes, so this is no name that stands for itself.
    have split : i.rest = (q :: (body ++ [q])) ++ d.rest := by simp [rest]
    rw [Cursor.lexemeTo_eq split (Cursor.offset_eq id split)] at same
    have lengths := congrArg (fun text => text.toList.length) same
    simp only [Text.unquote, String.toList_ofList, Text.unquoteChars_quoted q body isQuote,
      List.length_cons, List.length_append] at lengths
    omega
  · rintro l d - ⟨-, names⟩ -
    exact names

theorem importedName_ne (name : String) :
    importedName name ≠ .named "default" ∧ importedName name ≠ .wholeModule := by
  unfold importedName
  split
  · exact ⟨nofun, nofun⟩
  next other => exact ⟨fun same => other (by simpa using same), nofun⟩

theorem ensures_importedBinding (isTypeOnly : Bool) (typed : isTypeOnly = true → g.isTyped = true)
    (c : Cursor) :
    (importedBinding isTypeOnly).Ensures c fun b _ =>
      b.IsRead g.isTyped ∧ b.imported ≠ .wholeModule := by
  unfold importedBinding
  refine (ensures_moduleName c).bind fun name m _ bare => ensures_bind fun _ m₂ _ => ?_
  have last (localName imported : String) (m : Cursor) (isName : IsName localName.toList) :
      (do
        guard ((← lookingAt ",") || (← lookingAt "\x7d"))
        return ⟨localName, importedName imported, isTypeOnly⟩ : Parser ImportBinding).Ensures m
        fun b _ => b.IsRead g.isTyped ∧ b.imported ≠ .wholeModule := by
    obtain ⟨other, part⟩ := importedName_ne imported
    exact ensures_bind fun _ _ _ => ensures_bind fun _ _ _ => ensures_guard fun _ =>
      ensures_pure ⟨⟨isName, other, typed⟩, part⟩
  refine Ensures.ite (ensures_bind fun _ m₃ _ => ?_) (ensures_guard fun same => ?_)
  · exact (ensures_word m₃).bind fun given d _ told => last _ _ d told.2
  · have same : Text.unquote name.text = name.text := by simpa using same
    refine last _ _ m₂ ?_
    rw [same]
    exact bare same

theorem ensures_namedImports (c : Cursor) :
    g.namedImports.Ensures c fun bs _ => (∀ b ∈ bs, b.IsRead g.isTyped) ∧ Grouped bs := by
  have each (c : Cursor) : g.importSpecifier.Ensures c fun b _ =>
      b.IsRead g.isTyped ∧ b.imported ≠ .wholeModule := by
    refine (ensures_importedBinding false nofun c).orElse (Ensures.orElse ?_ ?_)
    · exact ensures_guard fun typed => ensures_bind fun _ m _ =>
        ensures_importedBinding true (fun _ => typed) m
    · exact ensures_guard fun _ => ensures_bind fun _ m _ => ensures_importedBinding false nofun m
  refine ensures_bind fun _ m _ => (ensures_separatedNames each "\x7d" m).mono ?_
  intro bs d _ all
  exact ⟨fun b member => (all b member).1, .inr fun b member => (all b member).2⟩

theorem ensures_namespaceImport (typed : Bool) (c : Cursor) :
    namespaceImport.Ensures c fun bs _ => (∀ b ∈ bs, b.IsRead typed) ∧ Grouped bs := by
  refine ensures_bind fun _ _ _ => ensures_bind fun _ m _ => ?_
  refine (ensures_word m).bind fun name d _ told => ensures_pure ⟨?_, .inl ⟨name.text, rfl⟩⟩
  intro b member
  obtain rfl := List.mem_singleton.mp member
  exact ⟨told.2, nofun, nofun⟩

theorem ensures_importBindings (c : Cursor) :
    g.importBindings.Ensures c fun bs _ => (∀ b ∈ bs, b.IsRead g.isTyped) ∧ Ranked bs := by
  have group (m : Cursor) : (g.namedImports <|> namespaceImport).Ensures m
      fun bs _ => (∀ b ∈ bs, b.IsRead g.isTyped) ∧ Grouped bs :=
    (ensures_namedImports m).orElse (ensures_namespaceImport _ m)
  unfold importBindings
  refine ensures_bind fun _ _ _ => ensures_bind fun _ m _ => Ensures.ite ?_ ?_
  · exact (group m).mono fun bs _ _ ⟨read, grouped⟩ => ⟨read, .inl grouped⟩
  refine (ensures_word m).bind fun name d _ told => ensures_bind fun _ d' _ => ?_
  have none : (pure [] : Parser (List ImportBinding)).Ensures d'
      fun bs _ => (∀ b ∈ bs, b.IsRead g.isTyped) ∧ Grouped bs :=
    ensures_pure ⟨nofun, .inr nofun⟩
  refine (ensures_seqRight fun e _ => group e).either none fun bs e _ ⟨read, grouped⟩ => ?_
  refine ensures_pure ⟨?_, .inr ⟨name.text, bs, rfl, grouped⟩⟩
  exact List.forall_mem_cons.mpr ⟨⟨told.2, nofun, nofun⟩, read⟩

theorem ensures_importClause (isTypeOnly : Bool) (c : Cursor) :
    (g.importClause isTypeOnly).Ensures c fun clause d => clause.ReadWithin c d := by
  have rest (bindings : List ImportBinding) (names : ∀ b ∈ bindings, b.HasPlainName) (m : Cursor)
      (cm : c ≤ m) : (do
        let specifier ← token stringLength?
        discard <| optionally do
          keyword "with" <|> (guard g.isTyped *> keyword "assert")
          discard g.objectLiteral
        g.endStatement false
        return { isTypeOnly, bindings, specifier } : Parser ImportClause).Ensures m
      fun clause d => clause.ReadWithin c d := by
    refine (ensures_string m).bind ?_
    rintro _ j - ⟨i, q, body, mi, ij, isQuote, size, text, rfl⟩
    refine ensures_bind fun _ d jd => ensures_bind fun _ e de => ensures_pure ?_
    exact ⟨⟨i, j, q, body, cm.trans mi, ij, jd.trans de, isQuote, size, text, rfl⟩, names⟩
  unfold importClause
  refine ensures_bind fun _ m₁ le₁ => ensures_bind fun _ m₂ le₂ => Ensures.ite ?_ ?_
  · exact rest [] nofun m₂ (le₁.trans le₂)
  · refine (ensures_importBindings m₂).bind fun bindings m₃ le₃ ⟨read, _⟩ => ?_
    exact ensures_bind fun _ m₄ le₄ => rest bindings (fun b member => (read b member).hasPlainName)
      m₄ (le₁.trans (le₂.trans (le₃.trans le₄)))

theorem ensures_importStatement (c : Cursor) :
    g.importStatement.Ensures c fun s d => ∃ i, c ≤ i ∧ i ≤ d ∧ s.ReadAt i d := by
  have clause (i m : Cursor) (im : i ≤ m) (isTypeOnly : Bool) : (do
      let clause ← g.importClause isTypeOnly
      return (Statement.importFrom · clause) : Parser (Lexeme → Statement)).Ensures m
      fun make d => ∀ l, (make l).lexeme = l ∧ (make l).Ordered i d := by
    refine (ensures_importClause isTypeOnly m).bind fun clause d _ within => ?_
    refine ensures_pure fun l => ?_
    obtain ⟨i', j, q, body, mi, ij, jd, facts⟩ := within.literal
    exact ⟨rfl, ⟨i', j, q, body, im.trans mi, ij, jd, facts⟩, within.names⟩
  unfold importStatement
  refine ensures_located (fun i make d => ∀ l, (make l).lexeme = l ∧ (make l).Ordered i d)
    (fun i _ => ?_) fun make i d ci id told => ensures_pure ⟨i, ci, id, told _⟩
  refine ensures_bind fun _ m im => Ensures.orElse ?_ (Ensures.orElse ?_ (Ensures.orElse ?_ ?_))
  · exact clause i m im false
  · exact ensures_bind fun isTypeOnly m' mm' => clause i m' (im.trans mm') isTypeOnly
  · exact ensures_bind fun _ _ _ => ensures_bind fun _ _ _ => ensures_pure fun _ => ⟨rfl, trivial⟩
  · exact ensures_bind fun _ _ _ => ensures_pure fun _ => ⟨rfl, trivial⟩

end Imports

section Exports

theorem ensures_defaultValue (reads : g.ReadsExpressions) (c : Cursor) :
    g.defaultValue.Ensures c fun exported d => exported.Ordered c d := by
  refine Ensures.orElse (Ensures.map ((ensures_declaration reads true c).mono ?_)) ?_
  · rintro x d - ⟨i, ci, -, -, ordered⟩
    exact ordered.widen ci le_rfl
  · refine (reads true c).bind fun e d _ ordered => ?_
    exact ensures_bind fun _ d' le => ensures_pure (ordered.widen le_rfl le)

theorem ensures_exportStatement (reads : g.ReadsExpressions) (c : Cursor) :
    g.exportStatement.Ensures c fun s d => ∃ i, c ≤ i ∧ i ≤ d ∧ s.ReadAt i d := by
  unfold exportStatement
  refine ensures_located (fun i make d => ∀ l, (make l).lexeme = l ∧ (make l).Ordered i d)
    (fun i _ => ?_) fun make i d ci id told => ensures_pure ⟨i, ci, id, told _⟩
  refine ensures_bind fun decorators m₁ le₁ => ?_
  refine (ensures_keyword "export" m₁).bind fun _ m₂ le₂ lt => ensures_bind fun _ m₃ le₃ => ?_
  refine Ensures.ite ?_ (Ensures.orElse ?_ (Ensures.orElse ?_ ?_))
  · refine ensures_bind fun _ m₄ le₄ => ?_
    refine (ensures_defaultValue reads m₄).bind fun exported d le₅ ordered => ?_
    have before := Cursor.offset_le le₁
    have after := Cursor.offset_le (le₃.trans (le₄.trans le₅))
    refine ensures_pure fun l => ⟨rfl, by omega, ordered.widen ?_ le_rfl⟩
    exact le₁.trans (le₂.trans (le₃.trans le₄))
  · exact ensures_guard fun _ => ensures_bind fun _ _ _ => ensures_pure fun _ => ⟨rfl, trivial⟩
  · exact ensures_bind fun _ _ _ => ensures_pure fun _ => ⟨rfl, trivial⟩
  · refine (ensures_declaration reads false m₃).bind ?_
    rintro x d - ⟨j, mj, jd, -, ordered⟩
    refine ensures_pure fun l => ⟨rfl, ordered.widen ?_ le_rfl⟩
    exact le₁.trans (le₂.trans (le₃.trans mj))

end Exports

section Statements

theorem ensures_declaredStatement (reads : g.ReadsExpressions) (c : Cursor) :
    (Statement.declared <$> g.declaration true).Ensures c fun s d =>
      ∃ i, c ≤ i ∧ i ≤ d ∧ s.ReadAt i d := by
  refine Ensures.map ((ensures_declaration reads true c).mono ?_)
  rintro x d - ⟨i, ci, id, place, ordered⟩
  exact ⟨i, ci, id, place, ordered⟩

theorem ensures_plainStatement {α : Type} (p : Parser α) (c : Cursor) :
    (Statement.other <$> extent p).Ensures c fun s d => ∃ i, c ≤ i ∧ i ≤ d ∧ s.ReadAt i d := by
  refine Ensures.map ((ensures_extent p c).mono ?_)
  rintro _ d - ⟨i, ci, id, rfl⟩
  exact ⟨i, ci, id, rfl, trivial⟩

theorem ensures_otherStatement (reads : g.ReadsExpressions) (c : Cursor) :
    g.otherStatement.Ensures c fun s d => ∃ i, c ≤ i ∧ i ≤ d ∧ s.ReadAt i d :=
  (ensures_plainStatement _ c).orElse
    ((ensures_declaredStatement reads c).orElse (ensures_plainStatement _ c))

theorem ensures_statementRule (reads : g.ReadsExpressions) (c : Cursor) :
    g.statementRule.Ensures c fun s d => ∃ i, c ≤ i ∧ i ≤ d ∧ s.ReadAt i d := by
  have wide {m : Cursor} (cm : c ≤ m) {p : Parser Statement}
      (told : p.Ensures m fun s d => ∃ i, m ≤ i ∧ i ≤ d ∧ s.ReadAt i d) :
      p.Ensures m fun s d => ∃ i, c ≤ i ∧ i ≤ d ∧ s.ReadAt i d :=
    told.mono fun s d _ ⟨i, mi, place⟩ => ⟨i, cm.trans mi, place⟩
  unfold statementRule
  refine ensures_bind fun name m₁ le₁ => ?_
  split
  next rule _ => exact wide le₁ (ensures_plainStatement rule m₁)
  refine Ensures.ite ?_ (Ensures.ite ?_ (Ensures.ite ?_ ?_))
  · exact wide le₁ ((ensures_importStatement m₁).orElse (ensures_plainStatement _ m₁))
  · exact wide le₁ (ensures_exportStatement reads m₁)
  · exact wide le₁ (ensures_declaredStatement reads m₁)
  refine ensures_bind fun _ m₂ le₂ => Ensures.ite ?_ (ensures_bind fun _ m₃ le₃ => ?_)
  · exact wide (le₁.trans le₂) (ensures_plainStatement _ m₂)
  refine Ensures.ite ?_ (ensures_bind fun _ m₄ le₄ => ?_)
  · exact wide (le₁.trans (le₂.trans le₃)) (ensures_plainStatement _ m₃)
  refine Ensures.ite ?_ (ensures_bind fun _ m₅ le₅ => ?_)
  · exact wide (le₁.trans (le₂.trans (le₃.trans le₄))) (ensures_plainStatement _ m₄)
  have le := le₁.trans (le₂.trans (le₃.trans (le₄.trans le₅)))
  refine Ensures.ite ?_ (wide le (ensures_otherStatement reads m₅))
  exact wide le ((ensures_exportStatement reads m₅).orElse (ensures_otherStatement reads m₅))

theorem ensures_statementRule_each {Holds : Statement → Prop} (plain : ∀ l, Holds (.other l))
    (imports : ∀ c, g.importStatement.Ensures c fun s _ => Holds s)
    (exports : ∀ c, g.exportStatement.Ensures c fun s _ => Holds s)
    (declares : ∀ c, (g.declaration true).Ensures c fun x _ => Holds (.declared x)) (c : Cursor) :
    g.statementRule.Ensures c fun s _ => Holds s := by
  have other {α : Type} (p : Parser α) (c : Cursor) :
      (Statement.other <$> extent p).Ensures c fun s _ => Holds s :=
    Ensures.map fun l _ _ => plain l
  have declared (c : Cursor) : (Statement.declared <$> g.declaration true).Ensures c
      fun s _ => Holds s :=
    Ensures.map (declares c)
  have others (c : Cursor) : g.otherStatement.Ensures c fun s _ => Holds s :=
    (other _ c).orElse ((declared c).orElse (other _ c))
  unfold statementRule
  refine ensures_bind fun name m₁ _ => ?_
  split
  next rule _ => exact other rule m₁
  refine Ensures.ite ?_ (Ensures.ite (exports m₁) (Ensures.ite (declared m₁) ?_))
  · exact (imports m₁).orElse (other _ m₁)
  refine ensures_bind fun _ m₂ _ => Ensures.ite (other _ m₂) ?_
  refine ensures_bind fun _ m₃ _ => Ensures.ite (other _ m₃) ?_
  refine ensures_bind fun _ m₄ _ => Ensures.ite (other _ m₄) ?_
  refine ensures_bind fun _ m₅ _ => Ensures.ite ?_ (others m₅)
  exact (exports m₅).orElse (others m₅)

end Statements

end Grammar

open Source.Parser

theorem ensures_program_each {g : Grammar} {Holds : Statement → Prop}
    (plain : ∀ l, Holds (.other l)) (each : ∀ c, g.statement.Ensures c fun s _ => Holds s)
    (c : Cursor) : (program g).Ensures c fun statements _ => ∀ s ∈ statements, Holds s := by
  have first (c : Cursor) : interpreterLine.Ensures c fun s _ => Holds s :=
    ensures_bind fun _ _ _ => ensures_guard fun _ => ensures_bind fun l _ _ =>
      ensures_pure (plain l)
  unfold program
  refine (first c).optionally.bind fun line m _ told => ?_
  refine (@ensures_repeatedly _ _ (fun _ s _ => Holds s) some _ (fun c => ?_) _ m).bind
    fun statements d _ order => ensures_pure fun s member => ?_
  · refine ensures_bind fun _ m cm => Ensures.ite (ensures_pure nofun) ?_
    refine (each m).bind fun s d md told => ensures_pure ?_
    rintro _ ⟨⟩ _ ⟨⟩
    exact ⟨m, d, cm, md, le_rfl, told⟩
  · rcases List.mem_append.mp member with line | later
    · exact told s (Option.mem_toList.mp line)
    · obtain ⟨-, -, -, -, -, told⟩ := (List.filterMap_some ▸ order).of_mem later
      exact told

theorem ensures_interpreterLine (c : Cursor) :
    interpreterLine.Ensures c fun s d => ∃ i, c ≤ i ∧ i ≤ d ∧ s.ReadAt i d := by
  refine ensures_bind fun _ m cm => ensures_guard fun _ => (ensures_token _ m).bind ?_
  rintro _ _ - ⟨i, n, mi, -, rfl, rfl⟩
  exact ensures_pure ⟨i, cm.trans mi, i.le_skip n, rfl, trivial⟩

theorem ensures_program (language : Language) (bound depth : Nat) (c : Cursor) :
    (program (Grammar.nested language bound depth)).Ensures c fun statements d =>
      InOrder Statement.ReadAt c statements d := by
  have reads := Grammar.nested_readsExpressions language bound
  have statement (c : Cursor) : (Grammar.nested language bound depth).statement.Ensures c
      fun s d => ∃ i, c ≤ i ∧ i ≤ d ∧ s.ReadAt i d := by
    cases depth with
    | zero => exact ensures_failure
    | succ depth => exact Grammar.ensures_statementRule (reads depth) c
  unfold program
  refine (ensures_interpreterLine c).optionally.bind fun first m cm told => ?_
  refine (@ensures_repeatedly _ _ Statement.ReadAt some _ (fun c => ?_) _ m).bind
    fun statements d _ order => ensures_pure ?_
  · refine ensures_bind fun _ m cm => Ensures.ite (ensures_pure nofun) ?_
    refine (statement m).bind ?_
    rintro s d - ⟨i, mi, id, read⟩
    refine ensures_pure ?_
    rintro _ ⟨⟩ _ ⟨⟩
    exact ⟨i, d, cm.trans mi, id, le_rfl, read⟩
  · rw [List.filterMap_some] at order
    cases first with
    | none => exact order.widen cm le_rfl
    | some s =>
      obtain ⟨i, ci, im, read⟩ := told s rfl
      exact ⟨i, m, ci, im, read, order⟩

theorem readStatements?_inOrder {language : Language} {source : String}
    {statements : List Statement} (read : readStatements? language source = some statements) :
    ∃ stop, InOrder Statement.ReadAt ⟨source.toList, 0⟩ statements stop := by
  obtain ⟨⟨_, stop⟩, run, rfl⟩ := Option.map_eq_some_iff.mp read
  exact ⟨stop, ensures_program _ _ _ _ _ _ run⟩

end SchemaMigration.Source
