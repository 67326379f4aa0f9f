import SchemaMigration.Field.Basic

set_option autoImplicit false

namespace SchemaMigration

open Source

namespace FieldCall

section Callee

inductive Names (imports : List Import) : Expr → String → Prop
  | imported {lexeme : Lexeme} {i : Import} {binding : ImportBinding} {name : String}
      (bound : Import.findBinding? imports lexeme.text = some (i, binding))
      (exported : binding.imported = .named name) : Names imports (.identifier lexeme) name
  | own {lexeme : Lexeme} (unnamed : ∀ i binding name,
        Import.findBinding? imports lexeme.text = some (i, binding) →
        binding.imported ≠ .named name) : Names imports (.identifier lexeme) lexeme.text
  | property {lexeme property : Lexeme} {object : Expr} :
      Names imports (.access lexeme object property) property.text

theorem calleeName?_eq_some_iff {imports : List Import} {e : Expr} {name : String} :
    calleeName? imports e = some name ↔ Names imports e name := by
  constructor
  next =>
    intro called
    unfold calleeName? at called
    split at called
    next lexeme =>
      split at called
      next bound =>
        cases called
        exact .imported bound rfl
      next unnamed =>
        cases called
        refine .own ?_
        rintro i ⟨_, _, _⟩ name bound rfl
        exact unnamed _ _ _ _ bound
    next =>
      cases called
      exact .property
    next => cases called
  next =>
    intro names
    cases names with
    | @imported lexeme i binding name bound exported =>
      obtain ⟨localName, imported, isTypeOnly⟩ := binding
      obtain rfl : imported = .named name := exported
      simp [calleeName?, bound]
    | own unnamed =>
      rw [calleeName?]
      split
      next bound => exact absurd rfl (unnamed _ _ _ bound)
      next => rfl
    | property => rfl

-- A call of a function that declares fields; without arguments it need not be called.
inductive Calls (imports : List Import) : Expr → FieldKind → List Expr → Prop
  | call {lexeme : Lexeme} {callee : Expr} {arguments : List Expr} {name : String}
      {kind : FieldKind} (names : Names imports callee name)
      (declares : FieldKind.ofFunction? name = some kind) :
      Calls imports (.call lexeme callee arguments) kind arguments
  | bare {callee : Expr} {name : String} {kind : FieldKind} (names : Names imports callee name)
      (declares : FieldKind.ofFunction? name = some kind) : Calls imports callee kind []

theorem calls_iff {imports : List Import} {e : Expr} {kind : FieldKind} {arguments : List Expr} :
    Calls imports e kind arguments ↔ ∃ callee, parts? e = some (callee, arguments) ∧
      (calleeName? imports callee).bind FieldKind.ofFunction? = some kind := by
  simp only [Option.bind_eq_some_iff, calleeName?_eq_some_iff]
  constructor
  next =>
    intro calls
    cases calls with
    | call names declares => exact ⟨_, rfl, _, names, declares⟩
    | bare names declares =>
      refine ⟨e, ?_, _, names, declares⟩
      cases names <;> rfl
  next =>
    rintro ⟨callee, parts, name, names, declares⟩
    unfold parts? at parts
    split at parts
    next =>
      cases parts
      exact .call names declares
    next =>
      cases parts
      exact .bare names declares
    next =>
      cases parts
      exact .bare names declares
    next => cases parts

end Callee

section Arguments

-- The arguments that a field call may have: a type, options or both, in this order. Options without
-- entries may be given once more.
inductive Usable : List Expr → Option String → FieldOptions → Prop
  | bare : Usable [] none .empty
  | type {e : Expr} {text : String} (plain : plainString? e = some text) :
      Usable [e] (some text) .empty
  | options {lexeme : Lexeme} {members : List ObjectMember} {entries : List (String × Literal)}
      (read : Literal.ofExpr (.object lexeme members) = .object entries) :
      Usable [.object lexeme members] none ⟨entries⟩
  | typeAndOptions {e : Expr} {text : String} {lexeme : Lexeme} {members : List ObjectMember}
      {entries : List (String × Literal)} (plain : plainString? e = some text)
      (read : Literal.ofExpr (.object lexeme members) = .object entries) :
      Usable [e, .object lexeme members] (some text) ⟨entries⟩
  | optionsAgain {lexeme other : Lexeme} {members others : List ObjectMember}
      {entries : List (String × Literal)}
      (empty : Literal.ofExpr (.object lexeme members) = .object [])
      (read : Literal.ofExpr (.object other others) = .object entries) :
      Usable [.object lexeme members, .object other others] none ⟨entries⟩

inductive Adds (call : FieldCall) (position : Nat) : Expr → FieldCall → Prop
  | type {e : Expr} {text : String} (first : position = 1) (plain : plainString? e = some text) :
      Adds call position e { call with type? := some text }
  | options {lexeme : Lexeme} {members : List ObjectMember} {entries : List (String × Literal)}
      (early : position ≤ 2) (empty : call.options.entries = [])
      (read : Literal.ofExpr (.object lexeme members) = .object entries) :
      Adds call position (.object lexeme members) { call with options := ⟨entries⟩ }

theorem addArgument_eq_ok_iff {call next : FieldCall} {position : Nat} {argument : Expr} :
    call.addArgument position argument = .ok next ↔ call.Adds position argument next := by
  constructor
  next =>
    intro added
    unfold addArgument at added
    split at added
    next lexeme members =>
      split at added
      next early =>
        rw [Bool.and_eq_true, decide_eq_true_iff, FieldOptions.isEmpty, List.isEmpty_iff] at early
        split at added
        next entries read =>
          cases added
          exact .options early.1 early.2 read
        next => cases added
      next => cases added
    next =>
      split at added
      next text plain =>
        split at added
        next first =>
          cases added
          exact .type (beq_iff_eq.mp first) plain
        next => cases added
      next => cases added
  next =>
    intro adds
    cases adds with
    | type first plain =>
      subst first
      cases argument with
      | object => cases plain
      | _ => simp [addArgument, plain]
    | options early empty read => simp [addArgument, FieldOptions.isEmpty, early, empty, read]

theorem addArguments_cons_eq_ok_iff {call last : FieldCall} {position : Nat} {argument : Expr}
    {rest : List Expr} : call.addArguments position (argument :: rest) = .ok last ↔
      ∃ next, call.Adds position argument next ∧
        next.addArguments (position + 1) rest = .ok last := by
  rw [addArguments]
  simp only [← addArgument_eq_ok_iff]
  cases call.addArgument position argument <;> simp

theorem usable_of_addArguments {kind : FieldKind} {arguments : List Expr} {call : FieldCall}
    (added : addArguments ⟨kind, none, .empty⟩ 1 arguments = .ok call) :
    call.kind = kind ∧ Usable arguments call.type? call.options := by
  rcases arguments with _ | ⟨first, _ | ⟨second, _ | ⟨third, rest⟩⟩⟩
  next =>
    cases added
    exact ⟨rfl, .bare⟩
  next =>
    obtain ⟨next, adds, done⟩ := addArguments_cons_eq_ok_iff.mp added
    cases done
    cases adds with
    | type _ plain => exact ⟨rfl, .type plain⟩
    | options _ _ read => exact ⟨rfl, .options read⟩
  next =>
    obtain ⟨next, adds, further⟩ := addArguments_cons_eq_ok_iff.mp added
    obtain ⟨last, again, done⟩ := addArguments_cons_eq_ok_iff.mp further
    cases done
    cases again with
    | type late => cases late
    | options _ empty read =>
      cases adds with
      | type _ plain => exact ⟨rfl, .typeAndOptions plain read⟩
      | options _ _ before =>
        obtain rfl := empty
        exact ⟨rfl, .optionsAgain before read⟩
  next =>
    -- A third argument adds nothing.
    obtain ⟨_, -, further⟩ := addArguments_cons_eq_ok_iff.mp added
    obtain ⟨_, -, further⟩ := addArguments_cons_eq_ok_iff.mp further
    obtain ⟨_, late, -⟩ := addArguments_cons_eq_ok_iff.mp further
    cases late with
    | type first => cases first
    | options early => exact absurd early (by decide)

theorem addArguments_of_usable {arguments : List Expr} {call : FieldCall}
    (usable : Usable arguments call.type? call.options) :
    addArguments ⟨call.kind, none, .empty⟩ 1 arguments = .ok call := by
  obtain ⟨kind, type?, options⟩ := call
  cases usable with
  | bare => rfl
  | type plain => exact addArguments_cons_eq_ok_iff.mpr ⟨_, .type rfl plain, rfl⟩
  | options read =>
    exact addArguments_cons_eq_ok_iff.mpr ⟨_, .options (by decide) rfl read, rfl⟩
  | typeAndOptions plain read =>
    refine addArguments_cons_eq_ok_iff.mpr ⟨_, .type rfl plain, ?_⟩
    exact addArguments_cons_eq_ok_iff.mpr ⟨_, .options (by decide) rfl read, rfl⟩
  | optionsAgain empty read =>
    refine addArguments_cons_eq_ok_iff.mpr ⟨_, .options (by decide) rfl empty, ?_⟩
    exact addArguments_cons_eq_ok_iff.mpr ⟨_, .options (by decide) rfl read, rfl⟩

end Arguments

def IsFieldCall (imports : List Import) (e : Expr) : Prop :=
  ∃ kind arguments, Calls imports e kind arguments

def Decodes (imports : List Import) (e : Expr) (call : FieldCall) : Prop :=
  ∃ arguments, Calls imports e call.kind arguments ∧ Usable arguments call.type? call.options

variable {imports : List Import} {e : Expr}

theorem read?_eq_some_iff {result : Except CallFault FieldCall} :
    read? imports e = some result ↔ ∃ kind arguments, Calls imports e kind arguments ∧
      addArguments ⟨kind, none, .empty⟩ 1 arguments = result := by
  simp only [read?, Option.bind_eq_bind, Option.bind_eq_some_iff, Option.pure_def,
    Option.some.injEq, calls_iff, Prod.exists]
  constructor
  next =>
    rintro ⟨callee, arguments, parts, kind, ⟨name, names, declares⟩, added⟩
    exact ⟨kind, arguments, ⟨callee, parts, name, names, declares⟩, added⟩
  next =>
    rintro ⟨kind, arguments, ⟨callee, parts, name, names, declares⟩, added⟩
    exact ⟨callee, arguments, parts, kind, ⟨name, names, declares⟩, added⟩

theorem read?_isSome_iff : (read? imports e).isSome = true ↔ IsFieldCall imports e := by
  simp only [Option.isSome_iff_exists, read?_eq_some_iff, IsFieldCall]
  constructor
  next =>
    rintro ⟨_, kind, arguments, calls, -⟩
    exact ⟨kind, arguments, calls⟩
  next =>
    rintro ⟨kind, arguments, calls⟩
    exact ⟨_, kind, arguments, calls, rfl⟩

theorem read?_eq_ok_iff {call : FieldCall} :
    read? imports e = some (.ok call) ↔ Decodes imports e call := by
  rw [read?_eq_some_iff]
  constructor
  next =>
    rintro ⟨kind, arguments, calls, added⟩
    obtain ⟨rfl, usable⟩ := usable_of_addArguments added
    exact ⟨arguments, calls, usable⟩
  next =>
    rintro ⟨arguments, calls, usable⟩
    exact ⟨_, arguments, calls, addArguments_of_usable usable⟩

theorem read?_eq_none_iff : read? imports e = none ↔ ¬IsFieldCall imports e := by
  rw [← read?_isSome_iff, Option.not_isSome_iff_eq_none]

end FieldCall

end SchemaMigration
