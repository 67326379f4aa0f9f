import Mathlib.Data.List.ReduceOption
import SchemaMigration.Proofs.SourcePlaces

set_option autoImplicit false

namespace SchemaMigration

open Source

inductive HeritageChain where
  | name (text : String)
  | access (object : HeritageChain) (property : String)
  | call (callee : HeritageChain) (arguments : List (Option String))
  | parenthesized (inner : HeritageChain)
deriving DecidableEq, Repr

namespace HeritageChain

def extend (object : HeritageChain) (arguments : List (Option String)) : HeritageChain :=
  .call (.access object "extend") arguments

def leftmost : HeritageChain → String
  | .name text => text
  | .access object _ => object.leftmost
  | .call callee _ => callee.leftmost
  | .parenthesized inner => inner.leftmost

-- The arguments of every call of `extend` on the way to the first name, from the inside out.
def extendCalls : HeritageChain → List (List (Option String))
  | .name _ => []
  | .access object _ => object.extendCalls
  | .call (.access object property) arguments =>
    object.extendCalls ++ if property = "extend" then [arguments] else []
  | .call callee _ => callee.extendCalls
  | .parenthesized inner => inner.extendCalls

structure IsCore (core : HeritageChain) : Prop where
  notExtend : ∀ object arguments, core ≠ extend object arguments
  bare : ∀ inner, core ≠ .parenthesized inner

-- A chain is a core with calls of `extend` around it, whose arguments are listed from the inside
-- out. Parentheses may stand around each of them.
inductive ExtendedBy (core : HeritageChain) :
    List (List (Option String)) → HeritageChain → Prop where
  | core (isCore : core.IsCore) : ExtendedBy core [] core
  | call {calls : List (List (Option String))} {object : HeritageChain}
      (arguments : List (Option String)) (inner : ExtendedBy core calls object) :
      ExtendedBy core (calls ++ [arguments]) (object.extend arguments)
  | parenthesized {calls : List (List (Option String))} {chain : HeritageChain}
      (inner : ExtendedBy core calls chain) : ExtendedBy core calls (.parenthesized chain)

variable {core other chain object : HeritageChain} {calls within : List (List (Option String))}

theorem exists_extendedBy (chain : HeritageChain) : ∃ core calls, ExtendedBy core calls chain := by
  fun_induction extendCalls chain with
  | case1 text => exact ⟨.name text, [], .core ⟨nofun, nofun⟩⟩
  | case2 object property => exact ⟨.access object property, [], .core ⟨nofun, nofun⟩⟩
  | case3 object property arguments ih =>
    by_cases named : property = "extend"
    next =>
      subst named
      obtain ⟨core, calls, inner⟩ := ih
      exact ⟨core, calls ++ [arguments], .call arguments inner⟩
    next =>
      refine ⟨.call (.access object property) arguments, [], .core ⟨?_, nofun⟩⟩
      intro inside given same
      simp [extend, named] at same
  | case4 callee arguments notAccess =>
    refine ⟨.call callee arguments, [], .core ⟨?_, nofun⟩⟩
    intro inside given same
    exact notAccess _ _ (call.inj same).1
  | case5 inner ih =>
    obtain ⟨core, calls, below⟩ := ih
    exact ⟨core, calls, .parenthesized below⟩

theorem ExtendedBy.unique (first : ExtendedBy core calls chain)
    (second : ExtendedBy other within chain) : other = core ∧ within = calls := by
  induction first generalizing within with
  | core isCore =>
    cases second with
    | core => exact ⟨rfl, rfl⟩
    | call => exact absurd rfl (isCore.notExtend _ _)
    | parenthesized => exact absurd rfl (isCore.bare _)
  | call arguments inner ih =>
    cases second with
    | core isCore => exact absurd rfl (isCore.notExtend _ _)
    | call _ below =>
      obtain ⟨rfl, rfl⟩ := ih below
      exact ⟨rfl, rfl⟩
  | parenthesized inner ih =>
    cases second with
    | core isCore => exact absurd rfl (isCore.bare _)
    | parenthesized below => exact ih below

theorem ExtendedBy.extendCalls_eq (extended : ExtendedBy core calls chain) :
    chain.extendCalls = core.extendCalls ++ calls := by
  induction extended with
  | core => rw [List.append_nil]
  | call arguments _ ih => simp [extend, extendCalls, ih]
  | parenthesized _ ih => exact ih

end HeritageChain

def Source.Expr.name? : Expr → Option String
  | .identifier lexeme => some lexeme.text
  | _ => none

def Source.Expr.chain? : Expr → Option HeritageChain
  | .identifier lexeme => some (.name lexeme.text)
  | .access _ inner property => inner.chain?.map (.access · property.text)
  | .call _ callee arguments => callee.chain?.map (.call · (arguments.map name?))
  | .parenthesized _ inner => inner.chain?.map .parenthesized
  | _ => none

theorem identifiers_eq_reduceOption (arguments : List Expr) :
    identifiers arguments = (arguments.map Expr.name?).reduceOption := by
  rw [identifiers, List.reduceOption, List.filterMap_map]
  refine congrArg (List.filterMap · arguments) (funext fun e => ?_)
  cases e <;> rfl

section Reading

variable {e : Expr} {chain core : HeritageChain} {calls : List (List (Option String))}

theorem leftmostName?_of_chain? (written : e.chain? = some chain) :
    leftmostName? e = some chain.leftmost := by
  fun_induction Expr.chain? e generalizing chain with
  | case1 lexeme =>
    cases written
    rfl
  | case2 _ inner _ ih | case3 _ inner _ ih | case4 _ inner ih =>
    obtain ⟨below, read, rfl⟩ := Option.map_eq_some_iff.mp written
    exact (ih read :)
  | case5 => cases written

theorem exists_of_chain?_extend {object : HeritageChain} {arguments : List (Option String)}
    (written : e.chain? = some (object.extend arguments)) :
    ∃ lexeme place inner property given, e = .call lexeme (.access place inner property) given ∧
      inner.chain? = some object ∧ property.text = "extend" ∧ given.map Expr.name? = arguments := by
  cases e with
  | call lexeme callee given =>
    obtain ⟨head, below, same⟩ := Option.map_eq_some_iff.mp written
    obtain ⟨rfl, rfl⟩ := HeritageChain.call.inj same
    cases callee with
    | access place inner property =>
      obtain ⟨_, read, called⟩ := Option.map_eq_some_iff.mp below
      obtain ⟨rfl, named⟩ := HeritageChain.access.inj called
      exact ⟨lexeme, place, inner, property, given, rfl, read, named, rfl⟩
    | identifier => cases below
    | call | parenthesized => simp [Expr.chain?] at below
    | _ => cases below
  | identifier => cases written
  | access | parenthesized => simp [Expr.chain?, HeritageChain.extend] at written
  | _ => cases written

theorem exists_of_chain?_parenthesized (written : e.chain? = some (.parenthesized chain)) :
    ∃ lexeme inner, e = .parenthesized lexeme inner ∧ inner.chain? = some chain := by
  cases e with
  | parenthesized lexeme inner =>
    obtain ⟨_, read, ⟨⟩⟩ := Option.map_eq_some_iff.mp written
    exact ⟨lexeme, inner, rfl, read⟩
  | identifier => cases written
  | access | call => simp [Expr.chain?] at written
  | _ => cases written

theorem Heritage.ofExpr_of_isCore (written : e.chain? = some core) (isCore : core.IsCore) :
    ofExpr e = ⟨some core.leftmost, []⟩ := by
  rw [← leftmostName?_of_chain? written]
  fun_cases Heritage.ofExpr e with
  | case1 lexeme place inner property arguments named =>
    obtain ⟨_, below, rfl⟩ := Option.map_eq_some_iff.mp written
    obtain ⟨object, -, rfl⟩ := Option.map_eq_some_iff.mp below
    have text : property.text = "extend" := by simpa using named
    exact absurd (by rw [text]; rfl) (isCore.notExtend object _)
  | case2 => rfl
  | case3 lexeme inner =>
    obtain ⟨below, -, rfl⟩ := Option.map_eq_some_iff.mp written
    exact absurd rfl (isCore.bare below)
  | case4 => rfl

theorem Heritage.ofExpr_of_extendedBy (written : e.chain? = some chain)
    (extended : core.ExtendedBy calls chain) :
    ofExpr e = ⟨some core.leftmost, calls.flatten.reduceOption⟩ := by
  induction extended generalizing e with
  | core isCore => exact ofExpr_of_isCore written isCore
  | call arguments _ ih =>
    obtain ⟨lexeme, place, inner, property, given, rfl, read, named, rfl⟩ :=
      exists_of_chain?_extend written
    rw [ofExpr, if_pos (by simpa using named), ih read, identifiers_eq_reduceOption]
    simp [List.reduceOption_append]
  | parenthesized _ ih =>
    obtain ⟨lexeme, inner, rfl, read⟩ := exists_of_chain?_parenthesized written
    exact (ih read :)

end Reading

section Files

variable {f : SourceFile} {x : Declared ⊕ Expr}

def SourceFile.Exports (f : SourceFile) (x : Declared ⊕ Expr) : Prop :=
  ∃ path source language statements, SourceFile.read path source = .ok f ∧
    Language.ofPath? path = some language ∧ readStatements? language source = some statements ∧
    DefaultExport.subject? statements = some x

theorem DefaultExport.form_of_subject? {all : List Statement} {what : Exported}
    (declares : what.subject? all = some x) (statement : Span) :
    ∃ binding, (ofExported statement all what).form = DeclarationForm.ofBound? binding x := by
  cases what with
  | declared =>
    cases declares
    exact ⟨none, rfl⟩
  | value e =>
    cases e with
    | identifier lexeme =>
      obtain ⟨⟨s, bound⟩, binder, rfl⟩ := Option.map_eq_some_iff.mp declares
      refine ⟨some lexeme.text, ?_⟩
      cases bound <;> simp [ofExported, ofName, binder, DeclarationForm.ofBound?]
    | _ =>
      cases declares
      exact ⟨none, rfl⟩

theorem SourceFile.Exports.declaration (exports : f.Exports x) :
    ∃ binding statements, f.declaration =
      (DeclarationForm.ofBound? binding x).map (·.toDeclaration statements) := by
  obtain ⟨path, source, language, statements, read, known, parsed, subject⟩ := exports
  obtain ⟨⟨lexeme, what⟩, first, declares⟩ := Option.bind_eq_some_iff.mp subject
  obtain ⟨binding, form⟩ := DefaultExport.form_of_subject? declares lexeme.span
  have made : f = ofStatements path language source statements := by
    simp only [SourceFile.read, known, parsed] at read
    exact (Except.ok.inj read).symm
  have found : DefaultExport.find? statements =
      some (DefaultExport.ofExported lexeme.span statements what) := by
    rw [DefaultExport.find?_eq, first]
    rfl
  refine ⟨binding, (DefaultExport.ofExported lexeme.span statements what).statements, ?_⟩
  rw [made, ofStatements, found, Option.getD_some, form]

def classHeritage? : Declared ⊕ Expr → Option Expr
  | .inl (.classDefinition _ definition) | .inr (.classLiteral _ definition) => definition.heritage
  | _ => none

theorem SourceFile.Exports.declaration_of_class {e : Expr} (exports : f.Exports x)
    (heritage : classHeritage? x = some e) :
    ∃ d, f.declaration = some d ∧ Heritage.mk d.base d.mixins = Heritage.ofExpr e := by
  obtain ⟨binding, statements, declared⟩ := exports.declaration
  obtain ⟨definition, made, given⟩ : ∃ definition,
      DeclarationForm.ofBound? binding x = some (.ofClass binding definition) ∧
      definition.heritage = some e := by
    unfold classHeritage? at heritage
    split at heritage
    next lexeme definition => exact ⟨definition, rfl, heritage⟩
    next lexeme definition => exact ⟨definition, rfl, heritage⟩
    next => cases heritage
  rw [made] at declared
  exact ⟨_, declared, by simp [DeclarationForm.toDeclaration, DeclarationForm.ofClass, given]⟩

theorem SourceFile.Exports.declaration_of_chain {e : Expr} (exports : f.Exports (.inr e))
    {object : HeritageChain} {arguments : List (Option String)}
    (written : e.chain? = some (object.extend arguments)) :
    ∃ d, f.declaration = some d ∧ Heritage.mk d.base d.mixins = Heritage.ofExpr e := by
  obtain ⟨binding, statements, declared⟩ := exports.declaration
  obtain ⟨lexeme, place, inner, property, given, rfl, -, named, -⟩ :=
    exists_of_chain?_extend written
  rw [DeclarationForm.ofBound?, Sum.elim_inr, DeclarationForm.ofExpr?,
    if_pos (by simpa using named)] at declared
  exact ⟨_, declared, rfl⟩

end Files

theorem heritage_chains_read :
    (∀ chain : HeritageChain, ∃ (core : HeritageChain) (calls : List (List (Option String))),
      core.ExtendedBy calls chain ∧
      (∀ other within, HeritageChain.ExtendedBy other within chain →
        other = core ∧ within = calls) ∧
      chain.extendCalls = core.extendCalls ++ calls ∧
      ∀ e : Expr, e.chain? = some chain →
        Heritage.ofExpr e = ⟨some core.leftmost, calls.flatten.reduceOption⟩) ∧
    ∀ (object : HeritageChain) (arguments : List (Option String)) (f g : SourceFile)
      (x : Declared ⊕ Expr) (e e' : Expr), f.Exports x → classHeritage? x = some e →
      g.Exports (.inr e') → e.chain? = some (object.extend arguments) →
      e'.chain? = some (object.extend arguments) →
      ∃ d d', f.declaration = some d ∧ g.declaration = some d' ∧ d.base = d'.base ∧
        d.mixins = d'.mixins ∧ Heritage.mk d.base d.mixins = Heritage.ofExpr e := by
  constructor
  next =>
    intro chain
    obtain ⟨core, calls, extended⟩ := chain.exists_extendedBy
    exact ⟨core, calls, extended, fun _ _ => extended.unique, extended.extendCalls_eq,
      fun _ written => Heritage.ofExpr_of_extendedBy written extended⟩
  next =>
    intro object arguments f g x e e' class_ heritage value written written'
    obtain ⟨core, calls, extended⟩ := (object.extend arguments).exists_extendedBy
    obtain ⟨d, declared, same⟩ := class_.declaration_of_class heritage
    obtain ⟨d', declared', same'⟩ := value.declaration_of_chain written'
    have alike : Heritage.mk d.base d.mixins = Heritage.mk d'.base d'.mixins := by
      rw [same, same', Heritage.ofExpr_of_extendedBy written extended,
        Heritage.ofExpr_of_extendedBy written' extended]
    obtain ⟨base, mixins⟩ := Heritage.mk.inj alike
    exact ⟨d, d', declared, declared', base, mixins, same⟩

def classChain? (source : String) : Option HeritageChain := do
  let x ← DefaultExport.subject? (← readStatements? .javaScript source)
  (← classHeritage? x).chain?

def valueChain? (source : String) : Option HeritageChain := do
  let x ← DefaultExport.subject? (← readStatements? .javaScript source)
  (← x.getRight?).chain?

theorem SourceFile.exists_exports {source : String} {statements : List Statement}
    {x : Declared ⊕ Expr} (parsed : readStatements? .javaScript source = some statements)
    (subject : DefaultExport.subject? statements = some x) : ∃ f : SourceFile, f.Exports x := by
  have known : Language.ofPath? ⟨"user.js"⟩ = some .javaScript := by decide +kernel
  exact ⟨ofStatements ⟨"user.js"⟩ .javaScript source statements, ⟨"user.js"⟩, source, .javaScript,
    statements, by simp only [SourceFile.read, known, parsed], known, parsed, subject⟩

def nestedCore : HeritageChain := .call (.access (.name "Base") "of") [some "X"]

def nestedObject : HeritageChain := .parenthesized (nestedCore.extend [some "A"])

def nestedClass : String :=
  "export default class extends (Base.of(X).extend(A)).extend(B, \x7b\x7d, C) \x7b\x7d\n"

def nestedValue : String :=
  "export default (Base.of(X).extend(A)).extend(B, \x7b\x7d, C);\n"

theorem nestedCore_extendedBy :
    nestedCore.ExtendedBy [[some "A"], [some "B", none, some "C"]]
      (nestedObject.extend [some "B", none, some "C"]) := by
  have isCore : nestedCore.IsCore := ⟨by simp [nestedCore, HeritageChain.extend], nofun⟩
  exact .call _ (.parenthesized (.call _ (.core isCore)))

theorem heritage_chains_read_nested :
    ∃ (f g : SourceFile) (x : Declared ⊕ Expr) (e e' : Expr),
      f.Exports x ∧ classHeritage? x = some e ∧ g.Exports (.inr e') ∧
      e.chain? = some (nestedObject.extend [some "B", none, some "C"]) ∧
      e'.chain? = some (nestedObject.extend [some "B", none, some "C"]) ∧
      ∃ d d' : Declaration, f.declaration = some d ∧ g.declaration = some d' ∧
        d.base = some "Base" ∧ d'.base = some "Base" ∧
        d.mixins = ["A", "B", "C"] ∧ d'.mixins = ["A", "B", "C"] := by
  have inClass : classChain? nestedClass =
      some (nestedObject.extend [some "B", none, some "C"]) := by decide +kernel
  have asValue : valueChain? nestedValue =
      some (nestedObject.extend [some "B", none, some "C"]) := by decide +kernel
  simp only [classChain?, valueChain?, Option.bind_eq_bind, Option.bind_eq_some_iff]
    at inClass asValue
  obtain ⟨statements, parsed, x, subject, e, heritage, written⟩ := inClass
  obtain ⟨statements', parsed', _, subject', e', isValue, written'⟩ := asValue
  obtain rfl := Sum.getRight?_eq_some_iff.mp isValue
  obtain ⟨f, exports⟩ := SourceFile.exists_exports parsed subject
  obtain ⟨g, exports'⟩ := SourceFile.exists_exports parsed' subject'
  obtain ⟨core, calls, -, unique, -, read⟩ :=
    heritage_chains_read.1 (nestedObject.extend [some "B", none, some "C"])
  obtain ⟨d, d', declared, declared', base, mixins, same⟩ :=
    heritage_chains_read.2 _ _ f g x e e' exports heritage exports' written written'
  obtain ⟨rfl, rfl⟩ := unique _ _ nestedCore_extendedBy
  rw [read e written] at same
  obtain ⟨own, names⟩ := Heritage.mk.inj same
  exact ⟨f, g, x, e, e', exports, heritage, exports', written, written', d, d', declared, declared',
    own, base ▸ own, names, mixins ▸ names⟩

def HeritageChain.extendNames (chain : HeritageChain) : List String :=
  chain.extendCalls.flatten.reduceOption

def mixinsOf? (source : String) : Option (List String) := do
  let f ← (SourceFile.read ⟨"user.js"⟩ source).toOption
  return (← f.declaration).mixins

def reopenedClass : String :=
  "export default class extends Base.extend(A).reopen(B).extend(C) \x7b\x7d\n"

theorem inner_extensions_unread :
    (classChain? reopenedClass).map HeritageChain.extendNames = some ["A", "C"] ∧
      mixinsOf? reopenedClass = some ["C"] := by
  decide +kernel

end SchemaMigration
