import SchemaMigration.Proofs.ExpressionRules

set_option autoImplicit false

namespace SchemaMigration.Source

def ObjectMember.ReadAt (i : Cursor) (m : ObjectMember) (j : Cursor) : Prop :=
  m.lexeme = i.lexemeTo j

def ClassMember.ReadAt (i : Cursor) (m : ClassMember) (j : Cursor) : Prop :=
  m.lexeme = i.lexemeTo j

def Expr.isPlain : Expr → Bool
  | .object .. | .classLiteral .. | .call .. | .parenthesized .. => false
  | _ => true

inductive Expr.Ordered (c d : Cursor) : Expr → Prop where
  | plain {e : Expr} (isPlain : e.isPlain = true) : Ordered c d e
  | object {lexeme : Lexeme} {members : List ObjectMember}
      (order : InOrder ObjectMember.ReadAt c members d) : Ordered c d (.object lexeme members)
  | classLiteral {lexeme : Lexeme} {definition : ClassDefinition}
      (order : InOrder ClassMember.ReadAt c definition.members d) :
      Ordered c d (.classLiteral lexeme definition)
  | call {lexeme : Lexeme} {callee : Expr} {arguments : List Expr}
      (each : ∀ a ∈ arguments, Ordered c d a) : Ordered c d (.call lexeme callee arguments)
  | parenthesized {lexeme : Lexeme} {inner : Expr} (order : Ordered c d inner) :
      Ordered c d (.parenthesized lexeme inner)

theorem Expr.Ordered.widen {c d : Cursor} {e : Expr} (ordered : e.Ordered c d) {b f : Cursor}
    (left : b ≤ c) (right : d ≤ f) : e.Ordered b f := by
  induction ordered with
  | plain isPlain => exact .plain isPlain
  | object order => exact .object (order.widen left right)
  | classLiteral order => exact .classLiteral (order.widen left right)
  | call each ih => exact .call ih
  | parenthesized order ih => exact .parenthesized ih

theorem Expr.isPlain_of_isAtom {e : Expr} (isAtom : e.isAtom = true) : e.isPlain = true := by
  cases e with
  | object | classLiteral | call | parenthesized => cases isAtom
  | _ => rfl

theorem Expr.ordered_passedOn : Expr.PassedOn fun c e d => e.Ordered c d where
  widen := Ordered.widen
  atom isAtom := .plain (isPlain_of_isAtom isAtom)
  call := .call
  parenthesized := .parenthesized

namespace Grammar

open Source.Parser

def ReadsExpressions (g : Grammar) : Prop :=
  ∀ breaks c, (g.expression breaks).Ensures c fun e d => e.Ordered c d

variable {g : Grammar}

section Objects

theorem ensures_namedMember (c : Cursor) :
    g.namedMember.Ensures c fun make _ => ∀ l, (make l).lexeme = l := by
  unfold namedMember
  refine ensures_bind fun _ _ _ => ensures_bind fun _ _ _ => ensures_bind fun _ _ _ => ?_
  refine ensures_bind fun _ _ _ => ensures_bind fun _ _ _ => ensures_bind fun _ _ _ => ?_
  split
  · refine ensures_guard fun _ => ensures_bind fun _ _ _ => ensures_if fun _ _ => ?_
    exact ensures_bind fun _ _ _ => ensures_bind fun _ _ _ => ensures_pure fun _ => rfl
  · refine ensures_guard fun _ => ensures_bind fun _ _ _ => ?_
    split
    · exact ensures_bind fun _ _ _ => ensures_bind fun _ _ _ => ensures_pure fun _ => rfl
    · exact ensures_guard fun _ => ensures_pure fun _ => rfl

theorem ensures_objectMember (c : Cursor) :
    g.objectMember.Ensures c fun m d => ∃ i, c ≤ i ∧ i ≤ d ∧ m.ReadAt i d := by
  unfold objectMember
  refine ensures_bind fun _ m cm => ?_
  split
  · refine (ensures_spread m).bind ?_
    rintro _ d - ⟨i, mi, id, rfl⟩
    exact ensures_pure ⟨i, cm.trans mi, id, rfl⟩
  · refine ensures_located (fun _ make _ => ∀ l, (make l).lexeme = l)
      (fun i _ => ensures_namedMember i) fun make i d mi id told => ?_
    exact ensures_pure ⟨i, cm.trans mi, id, told _⟩

end Objects

section Classes

theorem ensures_classNamedMember (decorators : List Decorator) (c : Cursor) :
    (g.classNamedMember decorators).Ensures c fun make _ => ∀ l, (make l).lexeme = l := by
  unfold classNamedMember
  refine ensures_bind fun _ _ _ => ensures_bind fun _ _ _ => ensures_bind fun _ _ _ => ?_
  split
  · refine ensures_bind fun _ _ _ => ensures_if fun _ _ => ?_
    refine ensures_bind fun _ _ _ => ensures_bind fun _ _ _ => ?_
    split
    · exact ensures_bind fun _ _ _ => ensures_bind fun _ _ _ => ensures_pure fun _ => rfl
    · exact ensures_bind fun _ _ _ => ensures_bind fun _ _ _ => ensures_pure fun _ => rfl
  · exact ensures_bind fun _ _ _ => ensures_bind fun _ _ _ => ensures_pure fun _ => rfl

theorem ensures_classMember (c : Cursor) :
    g.classMember.Ensures c fun m d => ∃ i, c ≤ i ∧ i ≤ d ∧ m.ReadAt i d := by
  unfold classMember
  refine ensures_located (fun _ make _ => ∀ l, (make l).lexeme = l) (fun i _ => ?_)
    fun make i d ci id told => ensures_pure ⟨i, ci, id, told _⟩
  refine ensures_bind fun decorators _ _ => ensures_bind fun _ _ _ => ensures_bind fun _ m _ => ?_
  split
  · exact ensures_pure fun _ => rfl
  · refine Ensures.orElse ?_ (Ensures.orElse ?_ (ensures_classNamedMember decorators m))
    · exact ensures_seqRight fun _ _ => ensures_bind fun _ _ _ => ensures_bind fun _ _ _ =>
        ensures_pure fun _ => rfl
    · exact ensures_bind fun _ _ _ => ensures_bind fun _ _ _ => ensures_bind fun _ _ _ =>
        ensures_pure fun _ => rfl

theorem classRest_ordered (named : Bool) (c : Cursor) :
    (g.classRest named).Ensures c fun definition d =>
      InOrder ClassMember.ReadAt c definition.members d :=
  ensures_classRest (fun _ _ => rfl) ensures_classMember named c

end Classes

theorem literals_ordered : g.ReadsLiterals fun c e d => e.Ordered c d where
  string c := (ensures_true _ c).mono fun _ _ _ _ => .plain rfl
  template c := (ensures_true _ c).mono fun _ _ _ _ => .plain rfl
  number c := (ensures_true _ c).mono fun _ _ _ _ => .plain rfl
  array _ := ensures_bind fun _ _ _ => ensures_pure (.plain rfl)
  object c := by
    refine (ensures_objectLiteral (fun _ _ => rfl) ensures_objectMember c).mono ?_
    rintro _ d - ⟨lexeme, members, rfl, order⟩
    exact .object order
  classLiteral c := by
    refine (ensures_classLiteral (fun _ _ => rfl) ensures_classMember c).mono ?_
    rintro _ d - ⟨lexeme, definition, rfl, order⟩
    exact .classLiteral order

theorem nested_readsExpressions (language : Language) (bound depth : Nat) :
    (nested language bound depth).ReadsExpressions :=
  nested_reads Expr.ordered_passedOn (fun _ _ => literals_ordered) language bound depth

end Grammar

end SchemaMigration.Source
