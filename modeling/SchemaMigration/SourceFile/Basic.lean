import SchemaMigration.Path.Basic
import SchemaMigration.Source.Program
import SchemaMigration.SourceFile.Declaration

set_option autoImplicit false

namespace SchemaMigration

open Source

structure SourceFile where
  path : Path
  language : Language
  imports : List Import
  fields : List Field
  declaration : Option Declaration
  behaviors : List Behavior
  retained : List Span
  warnings : List String
  source : String

inductive ReadFault where
  | unsupportedLanguage
  | syntaxError
deriving DecidableEq, Repr

def ReadFault.message : ReadFault → String
  | .unsupportedLanguage => "unsupported source language"
  | .syntaxError => "syntax error"

namespace SourceFile

def textAt? (f : SourceFile) (span : Span) : Option String :=
  (Text.slice? f.source.toList span.start span.stop).map String.ofList

def hasBehavior (f : SourceFile) : Bool :=
  !f.behaviors.isEmpty

def importOf? (f : SourceFile) (name : String) : Option (Import × ImportBinding) :=
  Import.findBinding? f.imports name

def isRetained (consumed : List Span) : Statement → Bool
  | .importFrom .. | .importOther _ => false
  | s => !consumed.contains s.lexeme.span

def ofStatements (path : Path) (language : Language) (source : String)
    (statements : List Statement) : SourceFile :=
  let imports := statements.filterMap Import.ofStatement?
  let exported := (DefaultExport.find? statements).getD ⟨[], none⟩
  let members := exported.form.elim [] fun form => form.body.read imports
  { path
    language
    imports
    fields := members.filterMap MemberReading.field?
    declaration := exported.form.map fun form => form.toDeclaration exported.statements
    behaviors := members.filterMap MemberReading.behavior?
    retained := (statements.filter (isRetained exported.statements)).map (·.lexeme.span)
    warnings := members.filterMap MemberReading.warning?
    source }

def read (path : Path) (source : String) : Except ReadFault SourceFile :=
  match Language.ofPath? path with
  | none => .error .unsupportedLanguage
  | some language =>
    match readStatements? language source with
    | none => .error .syntaxError
    | some statements => .ok (ofStatements path language source statements)

end SourceFile

end SchemaMigration
