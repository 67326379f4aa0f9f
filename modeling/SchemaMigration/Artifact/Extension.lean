import SchemaMigration.Naming.Entity
import SchemaMigration.SourceFile.Basic
import SchemaMigration.Specifier.Relocation
import SchemaMigration.Text.Identifier

set_option autoImplicit false

namespace SchemaMigration

open Source

inductive ExtensionShape where
  | classShape
  | objectShape
deriving DecidableEq, Repr

structure Extension where
  code : String
  exportName : String
  shape : ExtensionShape

inductive ExtensionFault where
  | member (span : Span)
  | statement
  | importStatement
  | importSpecifier

def ExtensionFault.message : ExtensionFault → String
  | .member ⟨start, stop⟩ => s!"member span {start}..{stop} is not valid source"
  | .statement => "retained statement span is not valid source"
  | .importStatement => "import statement span is not valid source"
  | .importSpecifier => "import specifier span lies outside its statement"

namespace Extension

def shapeOf (behaviors : List Behavior) : ExtensionShape :=
  if behaviors.all (·.origin == .classBody) then .classShape else .objectShape

def endsInSemicolon (text : String) : Bool :=
  (text.toList.reverse.dropWhile Character.isBlank).head? == some ';'

def terminated (shape : ExtensionShape) (isClassField : Bool) (text : String) : String :=
  match shape with
  | .objectShape => text ++ ","
  | .classShape => if isClassField && !endsInSemicolon text then text ++ ";" else text

def memberText (f : SourceFile) (shape : ExtensionShape) (b : Behavior) :
    Except ExtensionFault String :=
  match f.textAt? b.span with
  | some text => .ok (terminated shape b.isClassField text)
  | none => .error (.member b.span)

def retainedText (f : SourceFile) (span : Span) : Except ExtensionFault String :=
  match f.textAt? span with
  | some text => .ok text
  | none => .error .statement

def wrapper (shape : ExtensionShape) (exportName : String) (members : List String) : String :=
  let body := "\n\n".intercalate (members.map ("  " ++ ·))
  match shape with
  | .classShape => s!"export class {exportName} \x7b\n{body}\n\x7d\n"
  | .objectShape => s!"export const {exportName} = \x7b\n{body}\n\x7d;\n"

def namedBinding (isTypeImport : Bool) (name : String) (b : ImportBinding) : String :=
  let mark := if b.isTypeOnly && !isTypeImport then "type " else ""
  if name == b.localName then mark ++ name else mark ++ name ++ " as " ++ b.localName

def namedBindings (isTypeImport : Bool) (bindings : List ImportBinding) : List String :=
  bindings.filterMap fun b =>
    match b.imported with
    | .named name => some (namedBinding isTypeImport name b)
    | .defaultExport | .wholeModule => none

def bareBindings (bindings : List ImportBinding) : List String :=
  bindings.filterMap fun b =>
    match b.imported with
    | .defaultExport => some b.localName
    | .wholeModule => some ("* as " ++ b.localName)
    | .named _ => none

def partialImport (isTypeImport : Bool) (used : List ImportBinding) (specifier quote : String) :
    String :=
  let named := namedBindings isTypeImport used
  let braces := if named.isEmpty then [] else ["\x7b " ++ ", ".intercalate named ++ " \x7d"]
  let clause := ", ".intercalate (bareBindings used ++ braces)
  let keyword := if isTypeImport then "import type" else "import"
  s!"{keyword} {clause} from {quote}{specifier}{quote};"

def replaceBytes? (text : String) (start stop : Nat) (replacement : String) : Option String := do
  let (before, rest) ← Text.splitBytes? start text.toList
  let (_, after) ← Text.splitBytes? (stop - start) rest
  return String.ofList before ++ replacement ++ String.ofList after

def wholeImport (f : SourceFile) (i : Import) (specifier : String) :
    Except ExtensionFault String :=
  match f.textAt? i.statement with
  | none => .error .importStatement
  | some statement =>
    let start := i.statement.start
    match replaceBytes? statement (i.specifierSpan.start - start) (i.specifierSpan.stop - start)
      specifier with
    | some replaced => .ok replaced
    | none => .error .importSpecifier

def keptImport (f : SourceFile) (referenced : String) (relocated : String → String) (i : Import) :
    Except ExtensionFault (Option String) :=
  let used := i.bindings.filter fun b => Text.containsIdentifier referenced b.localName
  if !i.isSideEffect && used.isEmpty then .ok none
  else
    let specifier := relocated i.specifier
    if used.length == i.bindings.length then some <$> wholeImport f i specifier
    else
      -- The statement is put together anew, with the quotes that it had.
      let quote := (f.textAt? ⟨i.specifierSpan.start - 1, i.specifierSpan.start⟩).getD "'"
      .ok (some (partialImport i.isTypeOnly used specifier quote))

def build? (f : SourceFile) (entity : String) (target : Option Path)
    (mappings : List ImportMapping) : Except ExtensionFault (Option Extension) := do
  if !f.hasBehavior then return none
  else
    let shape := shapeOf f.behaviors
    let members ← f.behaviors.mapM (memberText f shape)
    let retained ← f.retained.mapM (retainedText f)
    let referenced := "\n".intercalate retained ++ "\n" ++ "\n".intercalate members
    let relocated specifier := (relocate mappings specifier (some f.path) target).1
    let imports ← f.imports.mapM (keptImport f referenced relocated)
    let kept := imports.filterMap id
    let exportName := extensionExportName entity
    let sections :=
      (if kept.isEmpty then [] else ["\n".intercalate kept])
        ++ (if retained.isEmpty then [] else ["\n\n".intercalate retained])
        ++ [wrapper shape exportName members]
    return some { code := "\n\n".intercalate sections, exportName, shape }

end Extension

end SchemaMigration
