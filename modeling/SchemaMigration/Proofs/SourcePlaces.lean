import Mathlib.Data.List.Forall2
import Mathlib.Data.List.Induction
import SchemaMigration.Proofs.StatementPlaces
import SchemaMigration.SourceFile.Basic

set_option autoImplicit false

namespace SchemaMigration

open Source

section Members

def DeclarationBody.Ordered (c d : Cursor) : DeclarationBody → Prop
  | .none => True
  | .classMembers members => InOrder ClassMember.ReadAt c members d
  | .objectMembers members => InOrder ObjectMember.ReadAt c members d

def Source.Expr.entries? : Expr → Option (List ObjectMember)
  | .object _ members => some members
  | _ => none

theorem Source.Expr.eq_object_of_entries? {e : Expr} {members : List ObjectMember}
    (entries : e.entries? = some members) : ∃ lexeme, e = .object lexeme members := by
  unfold Expr.entries? at entries
  split at entries
  next lexeme inner => exact ⟨lexeme, by rw [Option.some.inj entries]⟩
  next => cases entries

theorem DeclarationForm.bodyArgument_eq (arguments : List Expr) :
    bodyArgument arguments =
      (arguments.filterMap Expr.entries?).getLast?.elim .none .objectMembers := by
  unfold bodyArgument
  induction arguments using List.reverseRecOn with
  | nil => rfl
  | append_singleton before last ih =>
    rw [List.foldl_append, ih]
    cases last <;> simp [Expr.entries?]

theorem DeclarationForm.bodyArgument_cases (arguments : List Expr) :
    bodyArgument arguments = .none ∨ ∃ lexeme members,
      .object lexeme members ∈ arguments ∧ bodyArgument arguments = .objectMembers members := by
  rw [bodyArgument_eq]
  cases last : (arguments.filterMap Expr.entries?).getLast? with
  | none => exact .inl rfl
  | some members =>
    obtain ⟨a, member, entries⟩ := List.mem_filterMap.mp (List.mem_of_getLast? last)
    obtain ⟨lexeme, rfl⟩ := Expr.eq_object_of_entries? entries
    exact .inr ⟨lexeme, members, member, rfl⟩

variable {c d : Cursor}

theorem DeclarationForm.bodyArgument_ordered {arguments : List Expr}
    (each : ∀ a ∈ arguments, a.Ordered c d) : (bodyArgument arguments).Ordered c d := by
  rcases bodyArgument_cases arguments with none | ⟨lexeme, members, member, same⟩
  · rw [none]
    trivial
  · rw [same]
    cases each _ member with
    | plain isPlain => cases isPlain
    | object order => exact order

inductive DeclarationForm.MadeBy (binding : Option String) : Expr → DeclarationForm → Prop where
  | classLiteral {lexeme : Lexeme} {definition : ClassDefinition} :
      MadeBy binding (.classLiteral lexeme definition) (ofClass binding definition)
  | extend {lexeme place property : Lexeme} {object : Expr} {arguments : List Expr}
      (called : property.text = "extend") :
      MadeBy binding (.call lexeme (.access place object property) arguments)
        { kind := .extend, name := binding,
          heritage := Heritage.ofExpr (.call lexeme (.access place object property) arguments),
          body := bodyArgument arguments }
  | create {lexeme place property : Lexeme} {object : Expr} {arguments : List Expr}
      (called : property.text = "create") :
      MadeBy binding (.call lexeme (.access place object property) arguments)
        { kind := .mixinCreate, name := binding, heritage := ⟨none, identifiers arguments⟩,
          body := bodyArgument arguments }
  | parenthesized {lexeme : Lexeme} {inner : Expr} {form : DeclarationForm}
      (made : MadeBy binding inner form) : MadeBy binding (.parenthesized lexeme inner) form

theorem DeclarationForm.madeBy_of_ofExpr? {binding : Option String} {e : Expr}
    {form : DeclarationForm} (made : ofExpr? binding e = some form) : MadeBy binding e form := by
  fun_induction ofExpr? binding e with
  | case1 lexeme definition =>
    cases made
    exact .classLiteral
  | case2 lexeme place object property arguments body called =>
    cases made
    exact .extend (by simpa using called)
  | case3 lexeme place object property arguments body _ called =>
    cases made
    exact .create (by simpa using called)
  | case4 => cases made
  | case5 lexeme inner ih => exact .parenthesized (ih made)
  | case6 => cases made

theorem DeclarationForm.MadeBy.ordered {binding : Option String} {e : Expr}
    {form : DeclarationForm} (made : MadeBy binding e form) (ordered : e.Ordered c d) :
    form.body.Ordered c d := by
  induction made with
  | classLiteral =>
    cases ordered with
    | plain isPlain => cases isPlain
    | classLiteral order => exact order
  | extend | create =>
    cases ordered with
    | plain isPlain => cases isPlain
    | call each => exact bodyArgument_ordered each
  | parenthesized _ ih =>
    cases ordered with
    | plain isPlain => cases isPlain
    | parenthesized order => exact ih order

theorem DeclarationForm.ofDeclared?_ordered {binding : Option String} {x : Declared}
    {form : DeclarationForm} (ordered : x.Ordered c d) (made : ofDeclared? binding x = some form) :
    form.body.Ordered c d := by
  match x, made with
  | .classDefinition .., rfl => exact ordered.2

end Members

section Statements

variable {c d : Cursor}

inductive Source.Declared.Binds : Declared → Declared ⊕ Expr → Prop where
  | definition {lexeme : Lexeme} {definition : ClassDefinition} :
      Binds (.classDefinition lexeme definition) (.inl (.classDefinition lexeme definition))
  | value {lexeme : Lexeme} {declarators : List Declarator} {x : Declarator} {e : Expr}
      (listed : x ∈ declarators) (held : x.value = some e) :
      Binds (.variables lexeme declarators) (.inr e)

theorem Source.Declared.binds_of_bound? {name : String} {x : Declared} {bound : Declared ⊕ Expr}
    (binds : x.bound? name = some bound) : x.Binds bound := by
  unfold Declared.bound? at binds
  split at binds
  · split at binds
    · cases binds
      exact .definition
    · cases binds
  · simp only [Option.map_eq_some_iff, Option.bind_eq_some_iff] at binds
    obtain ⟨e, ⟨x, found, held⟩, rfl⟩ := binds
    exact .value (List.mem_of_find?_eq_some found) held
  · cases binds

def BoundOrdered (c d : Cursor) : Declared ⊕ Expr → Prop
  | .inl x => x.Ordered c d
  | .inr e => e.Ordered c d

theorem Source.Declared.bound?_ordered {name : String} {x : Declared} {bound : Declared ⊕ Expr}
    (ordered : x.Ordered c d) (binds : x.bound? name = some bound) :
    c.offset < d.offset ∧ BoundOrdered c d bound := by
  cases binds_of_bound? binds with
  | definition => exact ⟨ordered.1, ordered⟩
  | value listed held => exact ⟨ordered.1, ordered.2 _ listed _ held⟩

theorem Source.Statement.bound?_ordered {name : String} {s : Statement} {bound : Declared ⊕ Expr}
    (ordered : s.Ordered c d) (binds : s.bound? name = some bound) :
    c.offset < d.offset ∧ BoundOrdered c d bound := by
  unfold Statement.bound? at binds
  split at binds
  · exact Declared.bound?_ordered ordered binds
  · exact Declared.bound?_ordered ordered binds
  · exact Declared.bound?_ordered ordered.2 binds
  · cases binds

def Source.Statement.defaultExport? : Statement → Option (Lexeme × Exported)
  | .exportDefault lexeme exported => some (lexeme, exported)
  | _ => none

theorem Source.Statement.eq_of_defaultExport? {s : Statement} {lexeme : Lexeme}
    {exported : Exported} (found : s.defaultExport? = some (lexeme, exported)) :
    s = .exportDefault lexeme exported := by
  cases s <;> cases found
  rfl

theorem DefaultExport.find?_eq (all : List Statement) :
    find? all = (all.findSome? Statement.defaultExport?).map fun first =>
      ofExported first.1.span all first.2 := by
  rw [List.map_findSome?, find?]
  refine congrArg (List.findSome? · all) (funext fun s => ?_)
  cases s <;> rfl

theorem DefaultExport.exists_of_find? {all : List Statement} {exported : DefaultExport}
    (found : find? all = some exported) : ∃ lexeme what,
      all.findSome? Statement.defaultExport? = some (lexeme, what) ∧
      .exportDefault lexeme what ∈ all ∧ exported = ofExported lexeme.span all what := by
  rw [find?_eq] at found
  obtain ⟨⟨lexeme, what⟩, first, same⟩ := Option.map_eq_some_iff.mp found
  obtain ⟨s, member, isDefault⟩ := List.exists_of_findSome?_eq_some first
  rw [Statement.eq_of_defaultExport? isDefault] at member
  exact ⟨lexeme, what, first, member, same.symm⟩

def DeclarationForm.ofBound? (binding : Option String) : Declared ⊕ Expr → Option DeclarationForm :=
  Sum.elim (ofDeclared? binding) (ofExpr? binding)

theorem DefaultExport.ofName_cases (statement : Span) (all : List Statement) (name : String) :
    ofName statement all name = ⟨[statement], none⟩ ∨
      ∃ s bound, binder? all name = some (s, bound) ∧ s ∈ all ∧ s.bound? name = some bound ∧
        ofName statement all name =
          ⟨[statement, s.lexeme.span], DeclarationForm.ofBound? (some name) bound⟩ := by
  cases found : binder? all name with
  | none => exact .inl (by simp [ofName, found])
  | some first =>
    obtain ⟨s, bound⟩ := first
    obtain ⟨_, member, made⟩ := List.exists_of_findSome?_eq_some found
    obtain ⟨_, binds, ⟨⟩⟩ := Option.map_eq_some_iff.mp made
    refine .inr ⟨s, bound, rfl, member, binds, ?_⟩
    cases bound <;> simp [ofName, found, DeclarationForm.ofBound?]

theorem BoundOrdered.body {bound : Declared ⊕ Expr} (ordered : BoundOrdered c d bound)
    {binding : Option String} {form : DeclarationForm}
    (made : DeclarationForm.ofBound? binding bound = some form) : form.body.Ordered c d := by
  cases bound with
  | inl x => exact DeclarationForm.ofDeclared?_ordered ordered made
  | inr e => exact (DeclarationForm.madeBy_of_ofExpr? made).ordered ordered

theorem DefaultExport.body_ordered {all : List Statement} {exported : DefaultExport}
    (order : InOrder Statement.ReadAt c all d) (found : find? all = some exported)
    {form : DeclarationForm} (shown : exported.form = some form) :
    ∃ i j, c ≤ i ∧ i ≤ j ∧ j ≤ d ∧ ⟨i.offset, j.offset⟩ ∈ exported.statements ∧
      form.body.Ordered i j := by
  obtain ⟨lexeme, what, -, member, rfl⟩ := exists_of_find? found
  obtain ⟨i, j, ci, ij, jd, place, -, ordered⟩ := order.of_mem member
  have span : lexeme.span = ⟨i.offset, j.offset⟩ := congrArg Lexeme.span place
  unfold ofExported at shown ⊢
  split at shown
  next name =>
    rcases ofName_cases lexeme.span all name.text with same | ⟨s, bound, -, member, binds, same⟩
    · rw [same] at shown
      cases shown
    · rw [same] at shown
      obtain ⟨i, j, ci, ij, jd, place, ordered⟩ := order.of_mem member
      have span : s.lexeme.span = ⟨i.offset, j.offset⟩ := congrArg Lexeme.span place
      refine ⟨i, j, ci, ij, jd, by simp [same, span], ?_⟩
      exact (Statement.bound?_ordered ordered binds).2.body shown
  next =>
    have made := DeclarationForm.madeBy_of_ofExpr? shown
    exact ⟨i, j, ci, ij, jd, by simp [span], made.ordered ordered⟩
  next =>
    exact ⟨i, j, ci, ij, jd, by simp [span], DeclarationForm.ofDeclared?_ordered ordered shown⟩

def Source.Exported.subject? (all : List Statement) : Exported → Option (Declared ⊕ Expr)
  | .value (.identifier lexeme) => (DefaultExport.binder? all lexeme.text).map Prod.snd
  | .value e => some (.inr e)
  | .declared x => some (.inl x)

def DefaultExport.subject? (all : List Statement) : Option (Declared ⊕ Expr) :=
  (all.findSome? Statement.defaultExport?).bind fun first => first.2.subject? all

theorem DefaultExport.exists_subject? {all : List Statement} {exported : DefaultExport}
    (found : find? all = some exported) {form : DeclarationForm}
    (shown : exported.form = some form) : ∃ binding x, subject? all = some x ∧
      DeclarationForm.ofBound? binding x = some form := by
  obtain ⟨lexeme, what, first, -, rfl⟩ := exists_of_find? found
  unfold ofExported at shown
  split at shown
  next name =>
    rcases ofName_cases lexeme.span all name.text with same | ⟨s, bound, binder, -, -, same⟩
    · rw [same] at shown
      cases shown
    · rw [same] at shown
      exact ⟨some name.text, bound, by simp [subject?, first, Exported.subject?, binder], shown⟩
  next e _ => exact ⟨none, .inr e, by simp [subject?, first, Exported.subject?], shown⟩
  next x => exact ⟨none, .inl x, by simp [subject?, first, Exported.subject?], shown⟩

end Statements

section Behaviors

theorem exists_of_forall₂ {α β : Type} {R : α → β → Prop} {as : List α} {bs : List β}
    (each : List.Forall₂ R as bs) {a : α} (member : a ∈ as) : ∃ b ∈ bs, R a b := by
  induction each with
  | nil => cases member
  | cons related _ ih =>
    rcases List.mem_cons.mp member with rfl | later
    · exact ⟨_, List.mem_cons_self, related⟩
    · obtain ⟨b, listed, related⟩ := ih later
      exact ⟨b, List.mem_cons_of_mem _ listed, related⟩

variable {α : Type} {place : α → Span} {read? : Nat → α → Option MemberReading}

theorem readMembers_inOrder
    (spans : ∀ start m r b, read? start m = some r → r.behavior? = some b →
      b.span = ⟨start, (place m).stop⟩)
    {members : List α} {c d : Cursor}
    (order : InOrder (fun i m j => place m = ⟨i.offset, j.offset⟩) c members d)
    {pending : Option Nat} {k : Cursor} (kc : k ≤ c) (waiting : ∀ p ∈ pending, p = k.offset) :
    InOrder (fun i (b : Behavior) j => b.span = ⟨i.offset, j.offset⟩) k
      ((readMembers place read? pending members).filterMap MemberReading.behavior?) d := by
  induction members generalizing c k pending with
  | nil => exact kc.trans order
  | cons m rest ih =>
    obtain ⟨i, j, ci, ij, here, later⟩ := order
    -- What stands in front of the member, or the member itself, is where its place starts.
    obtain ⟨k', kk', k'i, start⟩ : ∃ k', k ≤ k' ∧ k' ≤ i ∧
        pending.getD (place m).start = k'.offset := by
      cases pending with
      | none => exact ⟨i, kc.trans ci, le_rfl, by simp [here]⟩
      | some p => exact ⟨k, le_rfl, kc.trans ci, waiting p rfl⟩
    simp only [readMembers, start]
    cases reading : read? k'.offset m with
    | none =>
      refine (ih later (k'i.trans ij) ?_).widen kk' le_rfl
      rintro _ ⟨⟩
      rfl
    | some r =>
      have further := @ih j later none j le_rfl nofun
      cases kept : r.behavior? with
      | none => simpa [kept] using further.widen (kc.trans (ci.trans ij)) le_rfl
      | some b =>
        have span := spans _ m r b reading kept
        rw [here] at span
        simpa [kept] using ⟨k', j, kk', k'i.trans ij, span, further⟩

theorem eq_of_readField {call : Option (Except CallFault FieldCall)} {name : String}
    {behavior b : Behavior} (kept : (readField call name behavior).behavior? = some b) :
    b = behavior := by
  unfold readField at kept
  split at kept
  · cases kept
  · exact (Option.some.inj kept).symm
  · exact (Option.some.inj kept).symm

theorem readClassMember?_behavior {imports : List Import} {start : Nat} {m : ClassMember}
    {r : MemberReading} {b : Behavior} (read : readClassMember? imports start m = some r)
    (kept : r.behavior? = some b) :
    b.span = ⟨start, m.lexeme.span.stop⟩ ∧ b.origin = .classBody := by
  cases m with
  | comment | decorators => cases read
  | field =>
    cases read
    obtain rfl := eq_of_readField kept
    exact ⟨rfl, rfl⟩
  | method | signature | staticBlock =>
    cases read
    cases kept
    exact ⟨rfl, rfl⟩

theorem readObjectMember?_behavior {imports : List Import} {start : Nat} {m : ObjectMember}
    {r : MemberReading} {b : Behavior} (read : readObjectMember? imports start m = some r)
    (kept : r.behavior? = some b) :
    b.span = ⟨start, m.lexeme.span.stop⟩ ∧ b.origin = .objectLiteral := by
  cases m with
  | comment => cases read
  | pair =>
    cases read
    obtain rfl := eq_of_readField kept
    exact ⟨rfl, rfl⟩
  | method | shorthand | spread =>
    cases read
    cases kept
    exact ⟨rfl, rfl⟩

theorem exists_of_mem_readMembers {members : List α} {pending : Option Nat} {r : MemberReading}
    (member : r ∈ readMembers place read? pending members) :
    ∃ start, ∃ m ∈ members, read? start m = some r := by
  induction members generalizing pending with
  | nil => cases member
  | cons m rest ih =>
    simp only [readMembers] at member
    split at member
    next =>
      obtain ⟨start, m', later, read⟩ := ih member
      exact ⟨start, m', List.mem_cons_of_mem m later, read⟩
    next first read =>
      rcases List.mem_cons.mp member with rfl | further
      · exact ⟨_, m, List.mem_cons_self, read⟩
      · obtain ⟨start, m', later, read⟩ := ih further
        exact ⟨start, m', List.mem_cons_of_mem m later, read⟩

theorem DeclarationBody.Ordered.read_inOrder {body : DeclarationBody} {c d : Cursor}
    (ordered : body.Ordered c d) (cd : c ≤ d) (imports : List Import) :
    InOrder (fun i (b : Behavior) j => b.span = ⟨i.offset, j.offset⟩) c
      ((body.read imports).filterMap MemberReading.behavior?) d := by
  cases body with
  | none => exact cd
  | classMembers members =>
    have places := InOrder.mono ordered fun i m j place => congrArg Lexeme.span place
    exact @readMembers_inOrder _ (·.lexeme.span) (readClassMember? imports)
      (fun _ _ _ _ read kept => (readClassMember?_behavior read kept).1) members c d places
      Option.none c le_rfl nofun
  | objectMembers members =>
    have places := InOrder.mono ordered fun i m j place => congrArg Lexeme.span place
    exact @readMembers_inOrder _ (·.lexeme.span) (readObjectMember? imports)
      (fun _ _ _ _ read kept => (readObjectMember?_behavior read kept).1) members c d places
      Option.none c le_rfl nofun

end Behaviors

structure Import.ReadAt (i : Cursor) (found : Import) (j : Cursor) : Prop where
  statement : found.statement = ⟨i.offset, j.offset⟩
  names : ∀ b ∈ found.bindings, b.HasPlainName
  specifier : ∃ k l q body, i ≤ k ∧ k ≤ l ∧ l ≤ j ∧ Text.isQuote q = true ∧ q.utf8Size = 1 ∧
    k.rest = q :: (body ++ q :: l.rest) ∧ found.specifier = String.ofList body ∧
    found.specifierSpan = ⟨k.offset + 1, l.offset - 1⟩

theorem Import.readAt_of_ofStatement? {i j : Cursor} {s : Statement} {found : Import}
    (read : s.ReadAt i j) (made : ofStatement? s = some found) : found.ReadAt i j := by
  unfold ofStatement? at made
  split at made
  next lexeme clause =>
    cases made
    obtain ⟨place, ⟨k, l, q, body, ik, kl, lj, isQuote, size, rest, literal⟩, names⟩ := read
    have split : k.rest = (q :: (body ++ [q])) ++ l.rest := by simp [rest]
    have written := Cursor.lexemeTo_eq split (Cursor.offset_eq kl split)
    refine ⟨congrArg Lexeme.span place, ?_, k, l, q, body, ik, kl, lj, isQuote, size, rest, ?_, ?_⟩
    · intro b member
      obtain ⟨b', member', rfl⟩ := List.mem_map.mp member
      by_cases marked : clause.isTypeOnly = true
      · simpa [ImportBinding.HasPlainName, marked] using names b' member'
      · simpa [marked] using names b' member'
    · simp [ofClause, literal, written, Text.unquote, Text.unquoteChars_quoted q body isQuote]
    · simp [ofClause, literal, written]
  next => cases made

namespace SourceFile

variable {path : Path} {source : String} {f : SourceFile}

theorem exists_of_read (read : SourceFile.read path source = .ok f) :
    ∃ language statements stop, Language.ofPath? path = some language ∧
      readStatements? language source = some statements ∧
      f = ofStatements path language source statements ∧
      InOrder Statement.ReadAt ⟨source.toList, 0⟩ statements stop := by
  unfold SourceFile.read at read
  split at read
  next => cases read
  next language known =>
    split at read
    next => cases read
    next statements found =>
      obtain ⟨stop, order⟩ := readStatements?_inOrder found
      exact ⟨language, statements, stop, known, found, by cases read; rfl, order⟩

theorem exists_of_any {p : SourceFile → Bool}
    (checked : (SourceFile.read path source).toOption.any p = true) :
    ∃ f, SourceFile.read path source = .ok f ∧ p f = true := by
  cases read : SourceFile.read path source with
  | error fault => simp [read, Except.toOption] at checked
  | ok f => exact ⟨f, rfl, by simpa [read, Except.toOption] using checked⟩

theorem declared_cases {language : Language} {statements : List Statement}
    (made : f = ofStatements path language source statements) :
    f.declaration = none ∧ f.fields = [] ∧ f.behaviors = [] ∨
      ∃ exported form, DefaultExport.find? statements = some exported ∧
        exported.form = some form ∧
        f.declaration = some (form.toDeclaration exported.statements) ∧
        f.fields = (form.body.read f.imports).filterMap MemberReading.field? ∧
        f.behaviors = (form.body.read f.imports).filterMap MemberReading.behavior? := by
  subst made
  cases found : DefaultExport.find? statements with
  | none => simp [ofStatements, found]
  | some exported =>
    cases shown : exported.form with
    | none => simp [ofStatements, found, shown]
    | some form => exact .inr ⟨exported, form, rfl, shown, by simp [ofStatements, found, shown]⟩

theorem textAt?_between {i j : Cursor} (start : ⟨f.source.toList, 0⟩ ≤ i) (ij : i ≤ j) :
    f.textAt? ⟨i.offset, j.offset⟩ = some (i.lexemeTo j).text := by
  simp [textAt?, Cursor.slice?_lexemeTo start ij]

theorem imports_inOrder (read : SourceFile.read path source = .ok f) :
    ∃ stop, InOrder Import.ReadAt ⟨f.source.toList, 0⟩ f.imports stop := by
  obtain ⟨language, statements, stop, -, -, rfl, order⟩ := exists_of_read read
  exact ⟨stop, order.filterMap fun _ _ _ _ _ => Import.readAt_of_ofStatement?⟩

theorem retained_inOrder (read : SourceFile.read path source = .ok f) :
    ∃ stop, InOrder (fun i span j => span = ⟨i.offset, j.offset⟩) ⟨f.source.toList, 0⟩
      f.retained stop := by
  obtain ⟨language, statements, stop, -, -, rfl, order⟩ := exists_of_read read
  refine ⟨stop, ?_⟩
  simp only [ofStatements, ← List.filterMap_eq_map]
  refine (order.sublist List.filter_sublist).filterMap ?_
  rintro i s j _ - read ⟨⟩
  exact congrArg Lexeme.span read.1

theorem behaviors_inOrder (read : SourceFile.read path source = .ok f) :
    ∃ c stop, ⟨f.source.toList, 0⟩ ≤ c ∧
      InOrder (fun i (b : Behavior) j => b.span = ⟨i.offset, j.offset⟩) c f.behaviors stop := by
  obtain ⟨language, statements, stop, -, -, made, order⟩ := exists_of_read read
  have same : f.source = source := by rw [made]; rfl
  rw [same]
  rcases declared_cases made with
    ⟨-, -, behaviors⟩ | ⟨exported, form, found, shown, -, -, behaviors⟩
  · rw [behaviors]
    exact ⟨_, _, le_rfl, le_rfl⟩
  · obtain ⟨i, j, start, ij, -, -, ordered⟩ := DefaultExport.body_ordered order found shown
    rw [behaviors]
    exact ⟨i, j, start, ordered.read_inOrder ij f.imports⟩

end SourceFile

end SchemaMigration
