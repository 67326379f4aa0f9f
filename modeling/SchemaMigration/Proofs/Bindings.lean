import Mathlib.Data.List.Pairwise
import SchemaMigration.Proofs.Extensions

set_option autoImplicit false

namespace SchemaMigration

open Source

-- The statement makes up the default export: it exports by default, or it is the first to bind
-- the name that is exported.
inductive Source.Statement.Declares (all : List Statement) : Statement → Prop where
  | exports {lexeme : Lexeme} {what : Exported}
      (first : all.findSome? Statement.defaultExport? = some (lexeme, what)) :
      Declares all (.exportDefault lexeme what)
  | binds {lexeme name : Lexeme} {s : Statement} {bound : Declared ⊕ Expr}
      (first : all.findSome? Statement.defaultExport? =
        some (lexeme, .value (.identifier name)))
      (binder : DefaultExport.binder? all name.text = some (s, bound)) : Declares all s

-- The text binds a name of the import: it is the whole statement with another specifier, or it is
-- read as an import that has the name.
inductive Import.BindsIn (f : SourceFile) (relocated : String → String) (i : Import)
    (b : ImportBinding) (text : String) : Prop where
  | whole {statement : String} {quote : Char} (written : f.textAt? i.statement = some statement)
      (respecified : i.Respecified statement (relocated i.specifier) text)
      (quoted : i.QuotedBy f quote)
      (string : IsString (quote :: ((relocated i.specifier).toList ++ [quote])))
  | part {bindings : List ImportBinding} {c : ImportBinding}
      (read : Extension.ReadAs f.language text (relocated i.specifier) bindings)
      (listed : c ∈ bindings) (name : c.localName = b.localName) (same : c.imported = b.imported)

-- No import of those of its names that occur can be written down.
inductive Import.Unwritable (f : SourceFile) (relocated : String → String)
    (occurs : String → Bool) (i : Import) : Prop where
  | names (fewer : ∃ b ∈ i.bindings, occurs b.localName = false)
      (unreadable : ¬Extension.Readable (i.bindings.filter fun b => occurs b.localName))
  | specifier {quote : Char} (quoted : i.QuotedBy f quote)
      (broken : ¬IsString (quote :: ((relocated i.specifier).toList ++ [quote])))

def Source.Statement.StaysIn (f : SourceFile) (relocated : String → String)
    (imports retained members : List String) (s : Statement) : Prop :=
  s.lexeme.text ∈ retained ∨
    ∃ i ∈ f.imports, Import.ofStatement? s = some i ∧
      ∀ b ∈ i.bindings, occursIn (retained ++ members) b.localName = true →
        ∃ text ∈ imports, i.BindsIn f relocated b text

-- How a statement gets lost: it makes up the default export, it is an import that names no module
-- of its own, or it is one that cannot be written.
inductive Source.Statement.Lost (all : List Statement) (f : SourceFile)
    (relocated : String → String) (texts : List String) (s : Statement) : Prop where
  | declares (declares : s.Declares all)
  | required {lexeme : Lexeme} (other : s = .importOther lexeme)
  | unwritable {i : Import} (listed : i ∈ f.imports) (found : Import.ofStatement? s = some i)
      (unwritable : i.Unwritable f relocated (occursIn texts))

def Span.Apart (a b : Span) : Prop :=
  a.Precedes b ∨ b.Precedes a

section Consumed

variable {all : List Statement} {c d : Cursor}

theorem apart_of_ne (order : InOrder Statement.ReadAt c all d) {s t : Statement}
    (left : s ∈ all) (right : t ∈ all) (different : s ≠ t) :
    s.lexeme.span.Apart t.lexeme.span := by
  have apart : all.Pairwise fun s t => s.lexeme.span.Apart t.lexeme.span :=
    (order.pairwise (·.lexeme.span) fun i s j read => congrArg Lexeme.span read.1).imp .inl
  have : Std.Symm fun s t : Statement => s.lexeme.span.Apart t.lexeme.span :=
    ⟨fun _ _ => Or.symm⟩
  exact apart.forall left right different

-- Statements come one after the other, so that only an empty one could share its place.
theorem eq_of_same_span (order : InOrder Statement.ReadAt c all d) {s t : Statement}
    (left : s ∈ all) (right : t ∈ all) (same : s.lexeme.span = t.lexeme.span)
    (nonempty : t.lexeme.span.start < t.lexeme.span.stop) : s = t := by
  by_contra different
  have split := apart_of_ne order left right different
  rw [same, Span.Apart, Span.Precedes] at split
  omega

theorem span_of_readAt {i j : Cursor} {s : Statement} (read : s.ReadAt i j) :
    s.lexeme.span = ⟨i.offset, j.offset⟩ :=
  congrArg Lexeme.span read.1

theorem declares_of_consumed (order : InOrder Statement.ReadAt c all d) {exported : DefaultExport}
    (found : DefaultExport.find? all = some exported) {s : Statement} (member : s ∈ all)
    (consumed : s.lexeme.span ∈ exported.statements) : s.Declares all := by
  obtain ⟨lexeme, what, first, listed, rfl⟩ := DefaultExport.exists_of_find? found
  have isExport (same : s.lexeme.span = lexeme.span) : s.Declares all := by
    obtain ⟨i, j, -, -, -, read⟩ := order.of_mem listed
    have nonempty : i.offset < j.offset := read.2.1
    rw [eq_of_same_span order member listed same (by rwa [span_of_readAt read])]
    exact .exports first
  have alone (only : s.lexeme.span ∈ [lexeme.span]) : s.Declares all :=
    isExport (List.mem_singleton.mp only)
  unfold DefaultExport.ofExported at consumed
  split at consumed
  next name =>
    rcases DefaultExport.ofName_cases lexeme.span all name.text with
      same | ⟨t, bound, binder, listed', binds, same⟩
    · rw [same] at consumed
      exact alone consumed
    · rw [same] at consumed
      rcases List.mem_cons.mp consumed with same | same
      · exact isExport same
      · obtain ⟨i, j, -, -, -, read⟩ := order.of_mem listed'
        have nonempty := (Statement.bound?_ordered read.2 binds).1
        rw [eq_of_same_span order member listed' (List.mem_singleton.mp same)
          (by rwa [span_of_readAt read])]
        exact .binds first binder
  next => exact alone consumed
  next => exact alone consumed

end Consumed

section Kept

variable {path : Path} {source : String} {f : SourceFile} {language : Language}
  {statements : List Statement} {stop : Cursor}

theorem Source.Statement.kept_cases
    (made : f = SourceFile.ofStatements path language source statements)
    (order : InOrder Statement.ReadAt ⟨source.toList, 0⟩ statements stop) {s : Statement}
    (member : s ∈ statements) :
    s.Declares statements ∨ (∃ lexeme, s = .importOther lexeme) ∨ s.lexeme.span ∈ f.retained ∨
      ∃ i ∈ f.imports, Import.ofStatement? s = some i := by
  have others (consumed : SourceFile.isRetained
      ((DefaultExport.find? statements).getD ⟨[], none⟩).statements s = false →
        s.lexeme.span ∈ ((DefaultExport.find? statements).getD ⟨[], none⟩).statements) :
      s.Declares statements ∨ s.lexeme.span ∈ f.retained := by
    cases stays : SourceFile.isRetained
        ((DefaultExport.find? statements).getD ⟨[], none⟩).statements s with
    | true =>
      refine .inr ?_
      rw [made]
      exact List.mem_map_of_mem (List.mem_filter.mpr ⟨member, stays⟩)
    | false =>
      have consumed := consumed stays
      cases found : DefaultExport.find? statements with
      | none => simp [found] at consumed
      | some exported =>
        rw [found] at consumed
        exact .inl (declares_of_consumed order found member consumed)
  cases s with
  | importFrom lexeme clause =>
    refine .inr (.inr (.inr ⟨Import.ofClause lexeme.span clause, ?_, rfl⟩))
    rw [made]
    exact List.mem_filterMap.mpr ⟨_, member, rfl⟩
  | importOther lexeme => exact .inr (.inl ⟨lexeme, rfl⟩)
  | exportDefault | exportDeclared | declared | other =>
    rcases others (by simp [SourceFile.isRetained]) with declares | stays
    · exact .inl declares
    · exact .inr (.inr (.inl stays))

theorem text_mem_retained
    (order : InOrder Statement.ReadAt ⟨f.source.toList, 0⟩ statements stop) {s : Statement}
    (member : s ∈ statements) (stays : s.lexeme.span ∈ f.retained) :
    s.lexeme.text ∈ f.retained.map f.textOf := by
  obtain ⟨i, j, start, ij, -, place⟩ := order.of_mem member
  refine List.mem_map.mpr ⟨_, stays, ?_⟩
  rw [span_of_readAt place, SourceFile.textOf, SourceFile.textAt?_between start ij, place.1]
  rfl

end Kept

theorem Import.isNeeded_of_occurs {occurs : String → Bool} {i : Import} {b : ImportBinding}
    (bound : b ∈ i.bindings) (found : occurs b.localName = true) : i.isNeeded occurs = true := by
  rw [Import.isNeeded, Bool.or_eq_true, List.any_eq_true]
  exact .inr ⟨b.localName, List.mem_map_of_mem bound, found⟩

theorem Import.KeptAs.bindsIn {f : SourceFile} {relocated : String → String}
    {occurs : String → Bool} {i : Import} {text : String} {quote : Char}
    (kept : i.KeptAs f relocated occurs text) (quoted : i.QuotedBy f quote)
    (writable : ¬i.Unwritable f relocated occurs) {b : ImportBinding} (bound : b ∈ i.bindings)
    (found : occurs b.localName = true) : i.BindsIn f relocated b text := by
  have string {quote : Char} (quoted : i.QuotedBy f quote) :
      IsString (quote :: ((relocated i.specifier).toList ++ [quote])) := by
    by_contra broken
    exact writable (.specifier quoted broken)
  by_cases all : ∀ b ∈ i.bindings, occurs b.localName = true
  · obtain ⟨statement, written, respecified⟩ := kept.whole all
    exact .whole written respecified quoted (string quoted)
  · have fewer : ∃ b ∈ i.bindings, occurs b.localName = false := by simpa using all
    obtain ⟨own, ownQuoted, narrowed⟩ := kept.some fewer
    have readable : Extension.Readable (i.bindings.filter fun b => occurs b.localName) := by
      by_contra unreadable
      exact writable (.names fewer unreadable)
    refine .part (narrowed.reads readable (string ownQuoted))
      (c := Extension.asWritten i.isTypeOnly b) ?_ rfl rfl
    exact List.mem_map_of_mem (List.mem_filter.mpr ⟨bound, found⟩)

theorem extension_keeps_bindings {path : Path} {source : String} {f : SourceFile}
    (read : SourceFile.read path source = .ok f) (behaves : f.behaviors ≠ []) (entity : String)
    (target : Option Path) (mappings : List ImportMapping) :
    ∃ language statements e imports retained members,
      Language.ofPath? path = some language ∧
      readStatements? language source = some statements ∧
      Extension.build? f entity target mappings = .ok (some e) ∧
      e.MadeOf f (fun specifier => (relocate mappings specifier (some f.path) target).1)
        imports retained members ∧
      ∀ s ∈ statements,
        s.Lost statements f (fun specifier => (relocate mappings specifier (some f.path) target).1)
          (retained ++ members) ∨
        s.StaysIn f (fun specifier => (relocate mappings specifier (some f.path) target).1)
          imports retained members := by
  obtain ⟨language, statements, stop, known, parsed, made, order⟩ := SourceFile.exists_of_read read
  obtain ⟨e, imports, built, -, whole⟩ :=
    Extension.build?_madeOf read behaves entity target mappings
  refine ⟨language, statements, e, imports, _, _, known, parsed, built, whole, ?_⟩
  intro s member
  have same : f.source = source := by rw [made]; rfl
  rcases Statement.kept_cases made order member with
    declares | other | stays | ⟨i, listed, isImport⟩
  · exact .inl (.declares declares)
  · obtain ⟨lexeme, other⟩ := other
    exact .inl (.required other)
  · exact .inr (.inl (text_mem_retained (same ▸ order) member stays))
  · by_cases writable : i.Unwritable f
        (fun specifier => (relocate mappings specifier (some f.path) target).1)
        (occursIn (f.retained.map f.textOf ++ f.behaviors.map fun b => f.textOf b.span))
    · exact .inl (.unwritable listed isImport writable)
    refine .inr (.inr ⟨i, listed, isImport, fun b bound occurs => ?_⟩)
    have needed := Import.isNeeded_of_occurs bound occurs
    obtain ⟨text, written, kept⟩ :=
      exists_of_forall₂ whole.import_texts (List.mem_filter.mpr ⟨listed, needed⟩)
    obtain ⟨quote, quoted⟩ := SourceFile.quotedBy_of_mem_imports read listed
    exact ⟨text, written, kept.bindsIn quoted writable bound occurs⟩

def countingSource : String :=
  "import \x7b one \x7d from './one';\nlet all = 2;\n" ++
    "export default class User extends Model \x7b\n  sum() \x7b return one + all; \x7d\n\x7d\n"

theorem extension_keeps_bindings_counting :
    ∃ f, SourceFile.read ⟨"app/models/user.js"⟩ countingSource = .ok f ∧ f.behaviors ≠ [] ∧
      ∃ statements e imports retained members,
        readStatements? .javaScript countingSource = some statements ∧
        Extension.build? f "user" none [] = .ok (some e) ∧
        e.MadeOf f (fun specifier => (relocate [] specifier (some f.path) none).1)
          imports retained members ∧
        ∀ s ∈ statements,
          s.Lost statements f (fun specifier => (relocate [] specifier (some f.path) none).1)
            (retained ++ members) ∨
          s.StaysIn f (fun specifier => (relocate [] specifier (some f.path) none).1)
            imports retained members := by
  obtain ⟨f, read, some⟩ := SourceFile.exists_of_any (by decide +kernel :
    (SourceFile.read ⟨"app/models/user.js"⟩ countingSource).toOption.any
      (fun f => !f.behaviors.isEmpty) = true)
  have behaves : f.behaviors ≠ [] := by simpa using some
  obtain ⟨language, statements, e, imports, retained, members, known, parsed, built, whole, each⟩ :=
    extension_keeps_bindings read behaves "user" none []
  obtain rfl : Language.javaScript = language :=
    Option.some.inj ((by decide +kernel : Language.ofPath? ⟨"app/models/user.js"⟩ = _).symm.trans
      known)
  exact ⟨f, read, behaves, statements, e, imports, retained, members, parsed, built, whole, each⟩

def extensionCode? (path : Path) (source : String) (mappings : List ImportMapping) :
    Option String := do
  let f ← (SourceFile.read path source).toOption
  let e ← (Extension.build? f "user" none mappings).toOption
  e.map Extension.code

def requiringSource : String :=
  "import fs = require('fs');\n" ++
    "export default class User extends Model \x7b\n  load() \x7b return fs.read(); \x7d\n\x7d\n"

def sharingSource : String :=
  "const LIMIT = 3, User = Model.extend(\x7b top() \x7b return LIMIT; \x7d \x7d);\n" ++
    "export default User;\n"

def sharingCode : String :=
  "export const UserExtension = \x7b\n  top() \x7b return LIMIT; \x7d,\n\x7d;\n"

def doubledSource : String :=
  "import D, \x7b default as X, y \x7d from './m';\n" ++
    "export default class A extends M \x7b f() \x7b return D(X); \x7d \x7d\n"

def doubledCode : String :=
  "import D, X from '../m';\n\n" ++
    "export class UserExtension \x7b\n  f() \x7b return D(X); \x7d\n\x7d\n"

def plainSource : String :=
  "import y from './m';\nexport default class A extends M \x7b f() \x7b return y; \x7d \x7d\n"

def brokenCode : String :=
  "import y from 'it's/m';\n\n" ++
    "export class UserExtension \x7b\n  f() \x7b return y; \x7d\n\x7d\n"

theorem extension_loses_bindings :
    extensionCode? ⟨"app/models/user.ts"⟩ requiringSource [] =
      some "export class UserExtension \x7b\n  load() \x7b return fs.read(); \x7d\n\x7d\n" ∧
    (extensionCode? ⟨"app/models/user.js"⟩ sharingSource [] = some sharingCode ∧
      (readStatements? .javaScript sharingSource).map
        (·.any fun s => (s.bound? "LIMIT").isSome) = some true ∧
      (readStatements? .javaScript sharingCode).map
        (·.any fun s => (s.bound? "LIMIT").isSome) = some false) ∧
    (extensionCode? ⟨"p/user.js"⟩ doubledSource [] = some doubledCode ∧
      readStatements? .javaScript doubledCode = none) ∧
    (extensionCode? ⟨"p/user.js"⟩ plainSource [⟨"p", "it's"⟩] = some brokenCode ∧
      readStatements? .javaScript brokenCode = none) := by
  decide +kernel

end SchemaMigration
