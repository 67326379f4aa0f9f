import SchemaMigration.Proofs.Bindings

set_option autoImplicit false

namespace SchemaMigration

open Source

namespace Span

structure FitsIn (span : Span) (source : String) : Prop where
  ordered : span.start ≤ span.stop
  inside : span.stop ≤ source.utf8ByteSize
  start : String.Pos.Raw.IsValid source ⟨span.start⟩
  stop : String.Pos.Raw.IsValid source ⟨span.stop⟩

structure Within (inner outer : Span) : Prop where
  start : outer.start ≤ inner.start
  stop : inner.stop ≤ outer.stop

end Span

namespace SourceFile

def declarationStatements (f : SourceFile) : List Span :=
  f.declaration.elim [] Declaration.statements

def places (f : SourceFile) : List Span :=
  f.imports.map Import.statement ++ f.imports.map Import.specifierSpan ++
    f.declarationStatements ++ f.behaviors.map Behavior.span ++ f.retained

structure HasPlaces (f : SourceFile) : Prop where
  fits : ∀ span ∈ f.places, span.FitsIn f.source
  specifiers : ∀ i ∈ f.imports,
    f.textAt? i.specifierSpan = some i.specifier ∧ i.specifierSpan.Within i.statement
  statementsApart :
    (f.imports.map Import.statement ++ f.declarationStatements ++ f.retained).Pairwise Span.Apart
  retainedInOrder : f.retained.Pairwise Span.Precedes
  behaviorsInOrder : (f.behaviors.map Behavior.span).Pairwise Span.Precedes
  behaviorsWithin : ∀ b ∈ f.behaviors, ∃ s ∈ f.declarationStatements, b.span.Within s

end SourceFile

section Boundaries

variable {source : String} {c d : Cursor}

theorem utf8ByteSize_ofList (s : List Char) :
    (String.ofList s).utf8ByteSize = Text.byteLength s := by
  induction s with
  | nil => rfl
  | cons x rest ih => simp [String.ofList_cons, ih, String.utf8ByteSize_singleton]

theorem Source.Cursor.isValid (start : ⟨source.toList, 0⟩ ≤ c) :
    String.Pos.Raw.IsValid source ⟨c.offset⟩ := by
  obtain ⟨before, rest, offset⟩ := start
  refine String.Pos.Raw.isValid_iff_exists_append.mpr
    ⟨String.ofList before, String.ofList c.rest, ?_, ?_⟩
  · rw [← String.ofList_append, ← rest, String.ofList_toList]
  · rw [offset, Nat.zero_add, String.rawEndPos, utf8ByteSize_ofList]

theorem Source.Cursor.fitsIn (start : ⟨source.toList, 0⟩ ≤ c) (le : c ≤ d) :
    Span.FitsIn ⟨c.offset, d.offset⟩ source where
  ordered := Cursor.offset_le le
  inside := (Cursor.isValid (start.trans le)).le_rawEndPos
  start := Cursor.isValid start
  stop := Cursor.isValid (start.trans le)

end Boundaries

section Imports

variable {i j : Cursor} {found : Import}

theorem Import.ReadAt.between (read : found.ReadAt i j) :
    ∃ k l, i ≤ k ∧ k ≤ l ∧ l ≤ j ∧ found.specifierSpan = ⟨k.offset, l.offset⟩ ∧
      (k.lexemeTo l).text = found.specifier := by
  obtain ⟨k, l, q, body, ik, kl, lj, -, size, literal, name, span⟩ := read.specifier
  have literalEnd := Cursor.offset_eq kl (s := q :: (body ++ [q])) (by simp [literal])
  simp only [Text.byteLength_cons, Text.byteLength_append, Text.byteLength_nil, size] at literalEnd
  let opened := k.skip 1
  have rest : opened.rest = body ++ q :: l.rest := by
    simp [opened, Cursor.skip_eq_drop, literal]
  have offset : opened.offset = k.offset + 1 := by
    simp [opened, Cursor.skip_eq_drop, literal, size]
  let closed := opened.skip body.length
  have rest' : closed.rest = [q] ++ l.rest := by
    simp [closed, Cursor.skip_eq_drop, rest]
  have offset' : closed.offset = opened.offset + Text.byteLength body := by
    simp [closed, Cursor.skip_eq_drop, rest]
  have closes : closed ≤ l := ⟨[q], rest', by simp [size]; omega⟩
  refine ⟨opened, closed, ik.trans (k.le_skip 1), opened.le_skip _, closes.trans lj, ?_, ?_⟩
  · rw [span, offset', offset, Span.mk.injEq]
    omega
  · rw [Cursor.lexemeTo_skip, rest, List.take_left, name]

theorem Import.statement_of_ofStatement? {s : Statement} (made : ofStatement? s = some found) :
    found.statement = s.lexeme.span := by
  cases s <;> cases made
  rfl

end Imports

section Statements

variable {all : List Statement} {c d : Cursor} {exported : DefaultExport}

theorem DefaultExport.statement_of_mem (found : find? all = some exported) {span : Span}
    (member : span ∈ exported.statements) :
    ∃ t ∈ all, t.lexeme.span = span ∧ Import.ofStatement? t = none := by
  obtain ⟨lexeme, what, -, listed, rfl⟩ := exists_of_find? found
  have alone (only : span ∈ [lexeme.span]) :
      ∃ t ∈ all, t.lexeme.span = span ∧ Import.ofStatement? t = none :=
    ⟨_, listed, (List.mem_singleton.mp only).symm, rfl⟩
  unfold ofExported at member
  split at member
  next name =>
    rcases ofName_cases lexeme.span all name.text with same | ⟨t, bound, -, listed', binds, same⟩
    · rw [same] at member
      exact alone member
    · rw [same] at member
      rcases List.mem_cons.mp member with only | last
      · exact ⟨_, listed, only.symm, rfl⟩
      · refine ⟨t, listed', (List.mem_singleton.mp last).symm, ?_⟩
        cases t <;> first | rfl | cases binds
  next => exact alone member
  next => exact alone member

theorem DefaultExport.statements_apart (order : InOrder Statement.ReadAt c all d)
    (found : find? all = some exported) : exported.statements.Pairwise Span.Apart := by
  obtain ⟨lexeme, what, -, listed, rfl⟩ := exists_of_find? found
  unfold ofExported
  split
  next name =>
    rcases ofName_cases lexeme.span all name.text with same | ⟨t, bound, -, listed', binds, same⟩
    · simp [same]
    · -- A name that is exported binds nothing, so that the two statements differ.
      rw [same, List.pairwise_pair]
      refine apart_of_ne order listed listed' ?_
      rintro rfl
      cases binds
  next => simp
  next => simp

end Statements

namespace SourceFile

variable {path : Path} {source : String} {f : SourceFile} {language : Language}
  {statements : List Statement} {stop : Cursor}

theorem exists_of_mem_imports (made : f = ofStatements path language source statements)
    {span : Span} (member : span ∈ f.imports.map Import.statement) :
    ∃ s ∈ statements, s.lexeme.span = span ∧ (Import.ofStatement? s).isSome := by
  obtain ⟨i, listed, rfl⟩ := List.mem_map.mp member
  rw [made] at listed
  obtain ⟨s, written, isImport⟩ := List.mem_filterMap.mp listed
  exact ⟨s, written, (Import.statement_of_ofStatement? isImport).symm, by simp [isImport]⟩

theorem declarationStatements_cases (made : f = ofStatements path language source statements) :
    f.declarationStatements = [] ∨ ∃ exported, DefaultExport.find? statements = some exported ∧
      f.declarationStatements = exported.statements := by
  rcases declared_cases made with ⟨none, -⟩ | ⟨exported, form, found, -, declared, -⟩
  · exact .inl (by simp [declarationStatements, none])
  · exact .inr ⟨exported, found, by simp [declarationStatements, declared,
      DeclarationForm.toDeclaration]⟩

theorem exists_of_mem_declarationStatements
    (made : f = ofStatements path language source statements) {span : Span}
    (member : span ∈ f.declarationStatements) :
    ∃ s ∈ statements, s.lexeme.span = span ∧ Import.ofStatement? s = none := by
  rcases declarationStatements_cases made with none | ⟨exported, found, same⟩
  · simp [none] at member
  · exact DefaultExport.statement_of_mem found (same ▸ member)

theorem exists_of_mem_retained (made : f = ofStatements path language source statements)
    {span : Span} (member : span ∈ f.retained) :
    span ∉ f.declarationStatements ∧
      ∃ s ∈ statements, s.lexeme.span = span ∧ Import.ofStatement? s = none := by
  rw [made] at member
  obtain ⟨s, kept, rfl⟩ := List.mem_map.mp member
  obtain ⟨written, stays⟩ := List.mem_filter.mp kept
  refine ⟨fun consumed => ?_, s, written, rfl, by cases s <;> first | rfl | cases stays⟩
  rcases declarationStatements_cases made with none | ⟨exported, found, same⟩
  · simp [none] at consumed
  · rw [found, Option.getD_some] at stays
    rw [same] at consumed
    cases s <;> simp_all [isRetained]

section Order

variable (made : f = ofStatements path language source statements)
  (order : InOrder Statement.ReadAt ⟨source.toList, 0⟩ statements stop)
include order

theorem fitsIn_of_mem_statements {s : Statement} (member : s ∈ statements) :
    s.lexeme.span.FitsIn source := by
  obtain ⟨i, j, start, ij, -, place⟩ := order.of_mem member
  rw [span_of_readAt place]
  exact Cursor.fitsIn start ij

include made

theorem imports_apart_of_mem {a b : Span} (left : a ∈ f.imports.map Import.statement)
    (right : b ∈ f.declarationStatements ∨ b ∈ f.retained) : a.Apart b := by
  obtain ⟨s, written, rfl, isImport⟩ := exists_of_mem_imports made left
  obtain ⟨t, written', rfl, other⟩ : ∃ t ∈ statements, t.lexeme.span = b ∧
      Import.ofStatement? t = none :=
    right.elim (exists_of_mem_declarationStatements made) fun kept =>
      (exists_of_mem_retained made kept).2
  refine apart_of_ne order written written' ?_
  rintro rfl
  simp [other] at isImport

theorem declared_apart_retained {a b : Span} (left : a ∈ f.declarationStatements)
    (right : b ∈ f.retained) : a.Apart b := by
  obtain ⟨s, written, rfl, -⟩ := exists_of_mem_declarationStatements made left
  obtain ⟨unused, t, written', rfl, -⟩ := exists_of_mem_retained made right
  refine apart_of_ne order written written' ?_
  rintro rfl
  exact unused left

theorem declarationStatements_apart : f.declarationStatements.Pairwise Span.Apart := by
  rcases declarationStatements_cases made with none | ⟨exported, found, same⟩
  · simp [none]
  · rw [same]
    exact DefaultExport.statements_apart order found

theorem behaviors_within : ∀ b ∈ f.behaviors, b.span.FitsIn source ∧
    ∃ s ∈ f.declarationStatements, b.span.Within s := by
  intro b member
  rcases declared_cases made with
    ⟨-, -, none⟩ | ⟨exported, form, found, shown, declared, -, behaviors⟩
  · simp [none] at member
  · obtain ⟨i, j, start, ij, -, listed, ordered⟩ := DefaultExport.body_ordered order found shown
    rw [behaviors] at member
    obtain ⟨k, l, ik, kl, lj, span⟩ := (ordered.read_inOrder ij f.imports).of_mem member
    rw [span]
    refine ⟨Cursor.fitsIn (start.trans ik) kl, ⟨i.offset, j.offset⟩, ?_,
      Cursor.offset_le ik, Cursor.offset_le lj⟩
    simpa [declarationStatements, declared, DeclarationForm.toDeclaration] using listed

end Order

theorem read_hasPlaces (read : SourceFile.read path source = .ok f) :
    f.source = source ∧ f.HasPlaces := by
  obtain ⟨language, statements, stop, -, -, made, order⟩ := exists_of_read read
  have same : f.source = source := by rw [made]; rfl
  obtain ⟨_, imports⟩ := imports_inOrder read
  obtain ⟨_, retained⟩ := retained_inOrder read
  obtain ⟨_, _, -, behaviors⟩ := behaviors_inOrder read
  have importsInOrder := imports.pairwise Import.statement fun _ _ _ read => read.statement
  have retainedInOrder := retained.pairwise id fun _ _ _ read => read
  have specifiers : ∀ i ∈ f.imports, i.specifierSpan.FitsIn source ∧
      f.textAt? i.specifierSpan = some i.specifier ∧ i.specifierSpan.Within i.statement := by
    intro i member
    obtain ⟨a, b, start, -, -, read⟩ := imports.of_mem member
    obtain ⟨k, l, ak, kl, lb, span, text⟩ := read.between
    rw [span, textAt?_between (start.trans ak) kl, text, read.statement]
    exact ⟨same ▸ Cursor.fitsIn (start.trans ak) kl, rfl, Cursor.offset_le ak, Cursor.offset_le lb⟩
  have within := behaviors_within made order
  refine ⟨same, ?_, fun i member => (specifiers i member).2, ?_, retainedInOrder, ?_,
    fun b member => (within b member).2⟩
  · intro span member
    simp only [places, List.mem_append] at member
    rw [same]
    rcases member with (((statement | specifier) | declared) | behavior) | kept
    · obtain ⟨s, written, rfl, -⟩ := exists_of_mem_imports made statement
      exact fitsIn_of_mem_statements order written
    · obtain ⟨i, listed, rfl⟩ := List.mem_map.mp specifier
      exact (specifiers i listed).1
    · obtain ⟨s, written, rfl, -⟩ := exists_of_mem_declarationStatements made declared
      exact fitsIn_of_mem_statements order written
    · obtain ⟨b, listed, rfl⟩ := List.mem_map.mp behavior
      exact (within b listed).1
    · obtain ⟨-, s, written, rfl, -⟩ := exists_of_mem_retained made kept
      exact fitsIn_of_mem_statements order written
  · refine List.pairwise_append.mpr ⟨List.pairwise_append.mpr
      ⟨(List.pairwise_map.mpr importsInOrder).imp .inl, declarationStatements_apart made order,
        fun a left b right => imports_apart_of_mem made order left (.inl right)⟩,
      retainedInOrder.imp .inl, fun a left b right => ?_⟩
    rcases List.mem_append.mp left with isImport | declared
    · exact imports_apart_of_mem made order isImport (.inr right)
    · exact declared_apart_retained made order declared right
  · exact List.pairwise_map.mpr (behaviors.pairwise Behavior.span fun _ _ _ read => read)

def accentedSource : String :=
  "import Model, \x7b attr \x7d from '@ember-data/modèle';\n// Café\n" ++
    "const größe = 3;\nclass User extends Model \x7b\n  @attr() name;\n" ++
    "  /* É */ @größer naïf() \x7b return größe; \x7d\n\x7d\nexport default User;\n"

theorem read_hasPlaces_accented :
    ∃ f, SourceFile.read ⟨"app/models/user.js"⟩ accentedSource = .ok f ∧
      (f.imports.length, f.declarationStatements.length, f.behaviors.length, f.retained.length) =
        (1, 2, 1, 1) ∧ f.HasPlaces := by
  obtain ⟨f, read, shape⟩ := SourceFile.exists_of_any (by decide +kernel :
    (SourceFile.read ⟨"app/models/user.js"⟩ accentedSource).toOption.any
      (fun f => (f.imports.length, f.declarationStatements.length, f.behaviors.length,
        f.retained.length) == (1, 2, 1, 1)) = true)
  exact ⟨f, read, eq_of_beq shape, (read_hasPlaces read).2⟩

end SourceFile

end SchemaMigration
