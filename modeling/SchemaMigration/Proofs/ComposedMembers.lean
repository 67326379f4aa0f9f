import SchemaMigration.Proofs.SourcePlaces

set_option autoImplicit false

namespace SchemaMigration

open Source

section Literals

def Source.ObjectMember.isMember : ObjectMember → Bool
  | .comment _ => false
  | _ => true

def Source.ClassMember.isMember : ClassMember → Bool
  | .comment _ | .decorators _ => false
  | _ => true

mutual

-- The object literals that calls of `extend` and `create` compose, in the order of the text.
def Source.Expr.composed : Expr → List (List ObjectMember)
  | .call _ (.access _ inner property) arguments =>
    inner.composed ++
      if property.text == "extend" || property.text == "create" then composedIn arguments else []
  | .parenthesized _ inner => inner.composed
  | .classLiteral _ (.mk _ (some heritage) _) => heritage.composed
  | _ => []

def Source.Expr.composedIn : List Expr → List (List ObjectMember)
  | [] => []
  | .object _ members :: rest => members :: composedIn rest
  | e :: rest => e.composed ++ composedIn rest

end

def composedBy : Declared ⊕ Expr → List (List ObjectMember)
  | .inl (.classDefinition _ definition) => definition.heritage.elim [] Expr.composed
  | .inl _ => []
  | .inr e => e.composed

-- The body of a class, or the last object literal of the outermost call.
def Source.Expr.ownBody : Expr → DeclarationBody
  | .classLiteral _ definition => .classMembers definition.members
  | .call _ _ arguments =>
    (arguments.filterMap entries?).getLast?.elim .none .objectMembers
  | .parenthesized _ inner => inner.ownBody
  | _ => .none

def bodyOf : Declared ⊕ Expr → DeclarationBody
  | .inl (.classDefinition _ definition) => .classMembers definition.members
  | .inl _ => .none
  | .inr e => e.ownBody

theorem DeclarationForm.MadeBy.body_eq {binding : Option String} {e : Expr}
    {form : DeclarationForm} (made : MadeBy binding e form) : form.body = e.ownBody := by
  induction made with
  | classLiteral => rfl
  | extend | create => exact bodyArgument_eq _
  | parenthesized _ ih => exact ih

theorem DeclarationForm.body_of_ofBound? {binding : Option String} {x : Declared ⊕ Expr}
    {form : DeclarationForm} (made : ofBound? binding x = some form) : form.body = bodyOf x := by
  match x, made with
  | .inl (.classDefinition ..), rfl => rfl
  | .inr _, made => exact (madeBy_of_ofExpr? made).body_eq

theorem Source.Expr.mem_composedIn {arguments : List Expr} {literal : List ObjectMember}
    (member : literal ∈ arguments.filterMap entries?) : literal ∈ composedIn arguments := by
  induction arguments with
  | nil => cases member
  | cons e rest ih =>
    cases e with
    | object lexeme members =>
      rcases List.mem_cons.mp member with rfl | later
      · exact List.mem_cons_self
      · exact List.mem_cons_of_mem _ (ih later)
    | _ => exact List.mem_append_right _ (ih member)

theorem Source.Expr.mem_composed_call {lexeme place property : Lexeme} {inner : Expr}
    {arguments : List Expr} {literal : List ObjectMember}
    (called : property.text = "extend" ∨ property.text = "create")
    (own : (call lexeme (access place inner property) arguments).ownBody =
      .objectMembers literal) :
    literal ∈ (call lexeme (access place inner property) arguments).composed := by
  rw [composed, if_pos (by simpa using called)]
  cases last : (arguments.filterMap entries?).getLast? with
  | none => simp [ownBody, last] at own
  | some members =>
    obtain rfl : members = literal := by simpa [ownBody, last] using own
    exact List.mem_append_right _ (mem_composedIn (List.mem_of_getLast? last))

theorem DeclarationForm.MadeBy.mem_composed {binding : Option String} {e : Expr}
    {form : DeclarationForm} (made : MadeBy binding e form) {literal : List ObjectMember}
    (own : e.ownBody = .objectMembers literal) : literal ∈ e.composed := by
  induction made with
  | classLiteral => cases own
  | extend called => exact Expr.mem_composed_call (.inl called) own
  | create called => exact Expr.mem_composed_call (.inr called) own
  | parenthesized _ ih => exact ih own

theorem mem_composedBy {binding : Option String} {x : Declared ⊕ Expr} {form : DeclarationForm}
    (made : DeclarationForm.ofBound? binding x = some form) {literal : List ObjectMember}
    (own : bodyOf x = .objectMembers literal) : literal ∈ composedBy x := by
  match x, made with
  | .inl (.classDefinition ..), _ => cases own
  | .inr _, made => exact (DeclarationForm.madeBy_of_ofExpr? made).mem_composed own

end Literals

section Readings

variable {α : Type} (place : α → Span) (read? : Nat → α → Option MemberReading)

-- Each member has one reading, whose place starts at the member or in front of it.
def ReadInOrder (members : List α) (readings : List MemberReading) : Prop :=
  List.Forall₂ (fun m r => ∃ start ≤ (place m).start, read? start m = some r) members readings

variable {place} {read?}

theorem readMembers_readInOrder {isMember : α → Bool}
    (reads : ∀ start m, (read? start m).isSome = isMember m) {members : List α} {c d : Cursor}
    (order : InOrder (fun i m j => place m = ⟨i.offset, j.offset⟩) c members d)
    {pending : Option Nat} (waiting : ∀ p ∈ pending, p ≤ c.offset) :
    ReadInOrder place read? (members.filter isMember)
      (readMembers place read? pending members) := by
  induction members generalizing c pending with
  | nil => exact .nil
  | cons m rest ih =>
    obtain ⟨i, j, ci, ij, here, later⟩ := order
    -- What waits in front of a member was read before it.
    have starts : pending.getD (place m).start ≤ (place m).start := by
      cases pending with
      | none => exact Nat.le_refl _
      | some p => simpa [here] using Nat.le_trans (waiting p rfl) (Cursor.offset_le ci)
    have isRead := reads (pending.getD (place m).start) m
    simp only [readMembers]
    cases reading : read? (pending.getD (place m).start) m with
    | none =>
      have passed : isMember m = false := by simpa [reading] using isRead.symm
      rw [List.filter_cons_of_neg (by simp [passed])]
      refine ih later ?_
      rintro _ ⟨⟩
      exact Nat.le_trans starts (by simpa [here] using Cursor.offset_le ij)
    | some r =>
      have kept : isMember m = true := by simpa [reading] using isRead.symm
      rw [List.filter_cons_of_pos kept]
      exact .cons ⟨_, starts, reading⟩ (ih later (by simp))

theorem readClassMember?_isSome (imports : List Import) (start : Nat) (m : ClassMember) :
    (readClassMember? imports start m).isSome = m.isMember := by
  cases m <;> rfl

theorem readObjectMember?_isSome (imports : List Import) (start : Nat) (m : ObjectMember) :
    (readObjectMember? imports start m).isSome = m.isMember := by
  cases m <;> rfl

def DeclarationBody.ReadsAs (imports : List Import) (readings : List MemberReading) :
    DeclarationBody → Prop
  | .none => readings = []
  | .classMembers members =>
    ReadInOrder (·.lexeme.span) (readClassMember? imports)
      (members.filter ClassMember.isMember) readings
  | .objectMembers members =>
    ReadInOrder (·.lexeme.span) (readObjectMember? imports)
      (members.filter ObjectMember.isMember) readings

theorem DeclarationBody.Ordered.readsAs {body : DeclarationBody} {c d : Cursor}
    (ordered : body.Ordered c d) (imports : List Import) :
    body.ReadsAs imports (body.read imports) := by
  cases body with
  | none => rfl
  | classMembers members =>
    have places := InOrder.mono ordered fun i m j place => congrArg Lexeme.span place
    exact readMembers_readInOrder (readClassMember?_isSome imports) places nofun
  | objectMembers members =>
    have places := InOrder.mono ordered fun i m j place => congrArg Lexeme.span place
    exact readMembers_readInOrder (readObjectMember?_isSome imports) places nofun

end Readings

namespace SourceFile

def Has (f : SourceFile) (m : ObjectMember) : Prop :=
  (∃ field ∈ f.fields, ∃ start, readObjectMember? f.imports start m = some (.field field)) ∨
    ∃ b ∈ f.behaviors, b.span.start ≤ m.lexeme.span.start ∧ b.span.stop = m.lexeme.span.stop

theorem has_of_mem {f : SourceFile} {readings : List MemberReading} {members : List ObjectMember}
    (fields : f.fields = readings.filterMap MemberReading.field?)
    (behaviors : f.behaviors = readings.filterMap MemberReading.behavior?)
    (order : ReadInOrder (·.lexeme.span) (readObjectMember? f.imports) members readings)
    {m : ObjectMember} (member : m ∈ members) : f.Has m := by
  obtain ⟨r, present, start, before, reading⟩ := exists_of_forall₂ order member
  cases r with
  | field field =>
    refine .inl ⟨field, ?_, start, reading⟩
    rw [fields]
    exact List.mem_filterMap.mpr ⟨_, present, rfl⟩
  | behavior b warning =>
    have span := (readObjectMember?_behavior reading rfl).1
    refine .inr ⟨b, ?_, by simpa [span] using before, by rw [span]⟩
    rw [behaviors]
    exact List.mem_filterMap.mpr ⟨_, present, rfl⟩

end SourceFile

theorem composed_members_read {path : Path} {source : String} {f : SourceFile}
    (read : SourceFile.read path source = .ok f) (declares : f.declaration ≠ none) :
    ∃ language statements x readings, Language.ofPath? path = some language ∧
      readStatements? language source = some statements ∧
      DefaultExport.subject? statements = some x ∧
      f.fields = readings.filterMap MemberReading.field? ∧
      f.behaviors = readings.filterMap MemberReading.behavior? ∧
      (bodyOf x).ReadsAs f.imports readings ∧
      ∀ literal, bodyOf x = .objectMembers literal → literal ∈ composedBy x ∧
        ∀ m ∈ literal, m.isMember = true → f.Has m := by
  obtain ⟨language, statements, stop, known, parsed, made, order⟩ := SourceFile.exists_of_read read
  rcases SourceFile.declared_cases made with
    ⟨absent, -⟩ | ⟨exported, form, found, shown, -, fields, behaviors⟩
  · exact absurd absent declares
  · obtain ⟨binding, x, subject, formed⟩ := DefaultExport.exists_subject? found shown
    obtain ⟨i, j, -, -, -, -, ordered⟩ := DefaultExport.body_ordered order found shown
    have reads := ordered.readsAs f.imports
    rw [DeclarationForm.body_of_ofBound? formed] at fields behaviors reads
    refine ⟨language, statements, x, _, known, parsed, subject, fields, behaviors, reads, ?_⟩
    intro literal isBody
    refine ⟨mem_composedBy formed isBody, fun m member isMember => ?_⟩
    rw [isBody] at fields behaviors reads
    exact SourceFile.has_of_mem fields behaviors reads (List.mem_filter.mpr ⟨member, isMember⟩)

def taggedSource : String :=
  "import \x7b attr \x7d from '@ember-data/model';\nexport default Model.extend(Tagged, " ++
    "\x7b name: attr('string'), /* all */ tags() \x7b\x7d \x7d);\n"

theorem composed_members_read_tagged :
    ∃ f, SourceFile.read ⟨"app/models/user.js"⟩ taggedSource = .ok f ∧ f.declaration ≠ none ∧
      f.fields.length = 1 ∧ f.behaviors.length = 1 ∧
      ∃ language statements x readings,
        Language.ofPath? ⟨"app/models/user.js"⟩ = some language ∧
        readStatements? language taggedSource = some statements ∧
        DefaultExport.subject? statements = some x ∧
        f.fields = readings.filterMap MemberReading.field? ∧
        f.behaviors = readings.filterMap MemberReading.behavior? ∧
        (bodyOf x).ReadsAs f.imports readings ∧
        ∀ literal, bodyOf x = .objectMembers literal → literal ∈ composedBy x ∧
          ∀ m ∈ literal, m.isMember = true → f.Has m := by
  obtain ⟨f, read, counted⟩ := SourceFile.exists_of_any (by decide +kernel :
    (SourceFile.read ⟨"app/models/user.js"⟩ taggedSource).toOption.any (fun f =>
      f.declaration.isSome && f.fields.length == 1 && f.behaviors.length == 1) = true)
  simp only [Bool.and_eq_true, beq_iff_eq] at counted
  have declares : f.declaration ≠ none := Option.isSome_iff_ne_none.mp counted.1.1
  exact ⟨f, read, declares, counted.1.2, counted.2, composed_members_read read declares⟩

def composedTexts? (source : String) : Option (List (List String)) := do
  let x ← DefaultExport.subject? (← readStatements? .javaScript source)
  some ((composedBy x).map fun literal => literal.map (·.lexeme.text))

def memberNames? (source : String) : Option (List String × List (Option String)) := do
  let f ← (SourceFile.read ⟨"app/models/user.js"⟩ source).toOption
  some (f.fields.map Field.name, f.behaviors.map Behavior.name)

def composingSources : List String :=
  ["export default Model.extend(\x7b a() \x7b\x7d \x7d, \x7b b() \x7b\x7d \x7d);\n",
    "export default Model.extend(\x7b a() \x7b\x7d \x7d).extend(\x7b b() \x7b\x7d \x7d);\n",
    "export default Model.extend(Mixin.create(\x7b a() \x7b\x7d \x7d), \x7b b() \x7b\x7d \x7d);\n"]

def inheritingSource : String :=
  "export default class extends Model.extend(\x7b a() \x7b\x7d \x7d) \x7b b() \x7b\x7d \x7d\n"

theorem composed_literals_lost :
    (∀ source ∈ composingSources,
      composedTexts? source = some [["a() \x7b\x7d"], ["b() \x7b\x7d"]] ∧
      memberNames? source = some ([], [some "b"])) ∧
    composedTexts? inheritingSource = some [["a() \x7b\x7d"]] ∧
    memberNames? inheritingSource = some ([], [some "b"]) := by
  decide +kernel

end SchemaMigration
