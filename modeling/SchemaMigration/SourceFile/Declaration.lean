import SchemaMigration.SourceFile.Heritage
import SchemaMigration.SourceFile.Member

set_option autoImplicit false

namespace SchemaMigration

open Source

inductive DeclarationKind where
  | classBody
  | extend
  | mixinCreate
deriving DecidableEq, Repr

structure Declaration where
  kind : DeclarationKind
  name : Option String
  base : Option String
  mixins : List String
  statements : List Span
deriving DecidableEq, Repr

inductive DeclarationBody where
  | none
  | classMembers (members : List ClassMember)
  | objectMembers (members : List ObjectMember)

def DeclarationBody.read (imports : List Import) : DeclarationBody → List MemberReading
  | .none => []
  | .classMembers members => readClassMembers imports members
  | .objectMembers members => readObjectMembers imports members

structure DeclarationForm where
  kind : DeclarationKind
  name : Option String
  heritage : Heritage
  body : DeclarationBody

namespace DeclarationForm

def ofClass (binding : Option String) (definition : ClassDefinition) : DeclarationForm where
  kind := .classBody
  name := (definition.name.map Lexeme.text).or binding
  heritage := (definition.heritage.map Heritage.ofExpr).getD ⟨none, []⟩
  body := .classMembers definition.members

def bodyArgument (arguments : List Expr) : DeclarationBody :=
  arguments.foldl (fun body argument =>
    match argument with
    | .object _ members => .objectMembers members
    | _ => body) .none

def ofExpr? (binding : Option String) : Expr → Option DeclarationForm
  | .classLiteral _ definition => some (ofClass binding definition)
  | .call lexeme (.access place object property) arguments =>
    let body := bodyArgument arguments
    if property.text == "extend" then
      let heritage := Heritage.ofExpr (.call lexeme (.access place object property) arguments)
      some { kind := .extend, name := binding, heritage, body }
    else if property.text == "create" then
      -- What `create` is called on is no base.
      let heritage := ⟨none, identifiers arguments⟩
      some { kind := .mixinCreate, name := binding, heritage, body }
    else none
  | .parenthesized _ inner => ofExpr? binding inner
  | _ => none

def ofDeclared? (binding : Option String) : Declared → Option DeclarationForm
  | .classDefinition _ definition => some (ofClass binding definition)
  | .variables .. | .other _ => none

def toDeclaration (form : DeclarationForm) (statements : List Span) : Declaration where
  kind := form.kind
  name := form.name
  base := form.heritage.base
  mixins := form.heritage.mixins
  statements

end DeclarationForm

def Source.Declared.bound? (name : String) : Declared → Option (Declared ⊕ Expr)
  | .classDefinition lexeme definition =>
    if definition.name.any (·.text == name) then some (.inl (.classDefinition lexeme definition))
    else none
  | .variables _ declarators =>
    -- The first variable of that name counts, even without a value.
    ((declarators.find? (·.name.text == name)).bind Declarator.value).map .inr
  | .other _ => none

def Source.Statement.bound? (name : String) : Statement → Option (Declared ⊕ Expr)
  | .declared d | .exportDeclared _ d | .exportDefault _ (.declared d) => d.bound? name
  | _ => none

structure DefaultExport where
  statements : List Span
  form : Option DeclarationForm

namespace DefaultExport

def binder? (all : List Statement) (name : String) : Option (Statement × (Declared ⊕ Expr)) :=
  all.findSome? fun s => (s.bound? name).map (s, ·)

def ofName (statement : Span) (all : List Statement) (name : String) : DefaultExport :=
  match binder? all name with
  | some (s, .inl declared) =>
    ⟨[statement, s.lexeme.span], DeclarationForm.ofDeclared? (some name) declared⟩
  | some (s, .inr value) =>
    ⟨[statement, s.lexeme.span], DeclarationForm.ofExpr? (some name) value⟩
  | none => ⟨[statement], none⟩

def ofExported (statement : Span) (all : List Statement) : Exported → DefaultExport
  | .value (.identifier lexeme) => ofName statement all lexeme.text
  | .value e => ⟨[statement], DeclarationForm.ofExpr? none e⟩
  | .declared d => ⟨[statement], DeclarationForm.ofDeclared? none d⟩

def find? (all : List Statement) : Option DefaultExport :=
  all.findSome? fun
    | .exportDefault lexeme exported => some (ofExported lexeme.span all exported)
    | _ => none

end DefaultExport

end SchemaMigration
