import SchemaMigration.Proofs.Rereading
import SchemaMigration.Proofs.StatementPlaces

set_option autoImplicit false

namespace SchemaMigration.Source

structure ImportClause.IsRead (typed : Bool) (clause : ImportClause) : Prop where
  bindings : ∀ b ∈ clause.bindings, b.IsRead typed
  ranked : Ranked clause.bindings
  typed : clause.isTypeOnly = true → typed = true

def Statement.Imports (Told : ImportClause → Prop) : Statement → Prop
  | .importFrom _ clause => Told clause
  | .importOther _ | .exportDefault .. | .exportDeclared .. | .declared _ | .other _ => True

namespace Grammar

open Source.Parser

variable {g : Grammar}

section Imports

theorem ensures_importClause_isRead (isTypeOnly : Bool)
    (typed : isTypeOnly = true → g.isTyped = true) (c : Cursor) :
    (g.importClause isTypeOnly).Ensures c fun clause _ => clause.IsRead g.isTyped := by
  have rest (bindings : List ImportBinding) (m : Cursor)
      (read : ∀ b ∈ bindings, b.IsRead g.isTyped) (ranked : Ranked bindings) : (do
        let specifier ← token stringLength?
        discard <| optionally do
          keyword "with" <|> (guard g.isTyped *> keyword "assert")
          discard g.objectLiteral
        g.endStatement false
        return { isTypeOnly, bindings, specifier } : Parser ImportClause).Ensures m
      fun clause _ => clause.IsRead g.isTyped :=
    ensures_bind fun _ _ _ => ensures_bind fun _ _ _ => ensures_bind fun _ _ _ =>
      ensures_pure ⟨read, ranked, typed⟩
  unfold importClause
  refine ensures_bind fun _ _ _ => ensures_bind fun _ m _ => Ensures.ite ?_ ?_
  · exact rest [] m nofun (.inl (.inr nofun))
  · refine (ensures_importBindings m).bind fun bindings _ _ ⟨read, ranked⟩ => ?_
    exact ensures_bind fun _ n _ => rest bindings n read ranked

theorem ensures_typeMark (c : Cursor) : g.typeMark.Ensures c fun _ _ => g.isTyped = true :=
  ensures_guard fun typed => ensures_bind fun _ _ _ => ensures_guard fun _ => ensures_pure typed

theorem ensures_importStatement_imports (c : Cursor) :
    g.importStatement.Ensures c fun s _ => s.Imports (·.IsRead g.isTyped) := by
  unfold importStatement
  refine ensures_located (fun _ make _ => ∀ l, (make l).Imports (·.IsRead g.isTyped))
    (fun i _ => ?_) fun make _ _ _ _ told => ensures_pure (told _)
  refine ensures_bind fun _ m _ => Ensures.orElse ?_ (Ensures.orElse ?_ (Ensures.orElse ?_ ?_))
  · exact (ensures_importClause_isRead false nofun m).bind fun _ _ _ read =>
      ensures_pure fun _ => read
  · refine (ensures_typeMark m).bind fun isTypeOnly n _ typed => ?_
    exact (ensures_importClause_isRead isTypeOnly (fun _ => typed) n).bind fun _ _ _ read =>
      ensures_pure fun _ => read
  · exact ensures_bind fun _ _ _ => ensures_bind fun _ _ _ => ensures_pure fun _ => trivial
  · exact ensures_bind fun _ _ _ => ensures_pure fun _ => trivial

end Imports

section Others

variable {Told : ImportClause → Prop}

theorem ensures_exportStatement_imports (c : Cursor) :
    g.exportStatement.Ensures c fun s _ => s.Imports Told := by
  unfold exportStatement
  refine ensures_located (fun _ make _ => ∀ l, (make l).Imports Told)
    (fun i _ => ?_) fun make _ _ _ _ told => ensures_pure (told _)
  refine ensures_bind fun _ _ _ => ensures_bind fun _ _ _ => ensures_bind fun _ _ _ => ?_
  refine Ensures.ite ?_ (Ensures.orElse ?_ (Ensures.orElse ?_ ?_))
  · exact ensures_bind fun _ _ _ => ensures_bind fun _ _ _ => ensures_pure fun _ => trivial
  · exact ensures_guard fun _ => ensures_bind fun _ _ _ => ensures_pure fun _ => trivial
  · exact ensures_bind fun _ _ _ => ensures_pure fun _ => trivial
  · exact ensures_bind fun _ _ _ => ensures_pure fun _ => trivial

end Others

theorem ensures_statementRule_imports (c : Cursor) :
    g.statementRule.Ensures c fun s _ => s.Imports (·.IsRead g.isTyped) :=
  ensures_statementRule_each (fun _ => trivial) ensures_importStatement_imports
    ensures_exportStatement_imports (fun _ _ _ _ => trivial) c

theorem nested_isTyped (language : Language) (bound depth : Nat) :
    (nested language bound depth).isTyped = (language == .typeScript) := by
  cases depth <;> rfl

theorem nested_imports (language : Language) (bound depth : Nat) (c : Cursor) :
    (nested language bound depth).statement.Ensures c fun s _ =>
      s.Imports (·.IsRead (language == .typeScript)) := by
  cases depth with
  | zero => exact ensures_failure
  | succ depth =>
    have told := ensures_statementRule_imports (g := nested language bound depth) c
    rwa [nested_isTyped] at told

end Grammar

theorem readStatements?_imports {language : Language} {source : String}
    {statements : List Statement} (read : readStatements? language source = some statements) :
    ∀ s ∈ statements, s.Imports (·.IsRead (language == .typeScript)) := by
  obtain ⟨⟨_, stop⟩, run, rfl⟩ := Option.map_eq_some_iff.mp read
  exact ensures_program_each (fun _ => trivial) (Grammar.nested_imports language _ _) _ _ _ run

end SchemaMigration.Source
