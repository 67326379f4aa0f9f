import SchemaMigration.Source.Span

set_option autoImplicit false

namespace SchemaMigration.Source

inductive KeyForm where
  | name
  | privateName
  | string
  | number
  | computed
deriving DecidableEq, Repr

structure Key where
  form : KeyForm
  lexeme : Lexeme
deriving DecidableEq, Repr

mutual

inductive Expr where
  | identifier (lexeme : Lexeme)
  | null (lexeme : Lexeme)
  | boolean (lexeme : Lexeme) (value : Bool)
  | number (lexeme : Lexeme)
  | string (lexeme : Lexeme)
  | template (lexeme : Lexeme)
  | array (lexeme : Lexeme) (items : List Expr)
  | object (lexeme : Lexeme) (members : List ObjectMember)
  | call (lexeme : Lexeme) (callee : Expr) (arguments : List Expr)
  | access (lexeme : Lexeme) (object : Expr) (property : Lexeme)
  -- Parentheses, around an expression or with a comment as the first thing in them.
  | parenthesized (lexeme : Lexeme) (inner : Expr)
  | classLiteral (lexeme : Lexeme) (definition : ClassDefinition)
  | target (lexeme : Lexeme)
  | other (lexeme : Lexeme)

inductive ObjectMember where
  | comment (lexeme : Lexeme)
  | pair (lexeme : Lexeme) (key : Key) (value : Expr)
  | method (lexeme : Lexeme) (key : Key)
  | shorthand (lexeme : Lexeme)
  | spread (lexeme : Lexeme)

inductive ClassMember where
  | comment (lexeme : Lexeme)
  | decorators (lexeme : Lexeme)
  | field (lexeme : Lexeme) (key : Key) (decorators : List Decorator)
  | method (lexeme : Lexeme) (key : Key)
  | signature (lexeme : Lexeme) (name : Lexeme)
  | staticBlock (lexeme : Lexeme)

inductive Decorator where
  | mk (lexeme : Lexeme) (expression : Expr)

inductive ClassDefinition where
  | mk (name : Option Lexeme) (heritage : Option Expr) (members : List ClassMember)

end

namespace Expr

def lexeme : Expr → Lexeme
  | .identifier l | .null l | .boolean l _ | .number l | .string l | .template l | .array l _
  | .object l _ | .call l _ _ | .access l _ _ | .parenthesized l _ | .classLiteral l _
  | .target l | .other l => l

def span (e : Expr) : Span := e.lexeme.span

def text (e : Expr) : String := e.lexeme.text

end Expr

namespace ObjectMember

def lexeme : ObjectMember → Lexeme
  | .comment l | .pair l _ _ | .method l _ | .shorthand l | .spread l => l

end ObjectMember

namespace ClassMember

def lexeme : ClassMember → Lexeme
  | .comment l | .decorators l | .field l _ _ | .method l _ | .signature l _ | .staticBlock l => l

end ClassMember

namespace Decorator

def lexeme : Decorator → Lexeme
  | .mk l _ => l

def expression : Decorator → Expr
  | .mk _ e => e

end Decorator

namespace ClassDefinition

def name : ClassDefinition → Option Lexeme
  | .mk name _ _ => name

def heritage : ClassDefinition → Option Expr
  | .mk _ heritage _ => heritage

def members : ClassDefinition → List ClassMember
  | .mk _ _ members => members

end ClassDefinition

inductive ImportedName where
  | defaultExport
  | wholeModule
  | named (name : String)
deriving DecidableEq, Repr

structure ImportBinding where
  localName : String
  imported : ImportedName
  isTypeOnly : Bool
deriving DecidableEq, Repr

structure ImportClause where
  isTypeOnly : Bool
  bindings : List ImportBinding
  specifier : Lexeme

structure Declarator where
  name : Lexeme
  value : Option Expr

inductive Declared where
  | classDefinition (lexeme : Lexeme) (definition : ClassDefinition)
  | variables (lexeme : Lexeme) (declarators : List Declarator)
  | other (lexeme : Lexeme)

def Declared.lexeme : Declared → Lexeme
  | .classDefinition l _ | .variables l _ | .other l => l

inductive Exported where
  | declared (declared : Declared)
  | value (expression : Expr)

inductive Statement where
  | importFrom (lexeme : Lexeme) (clause : ImportClause)
  | importOther (lexeme : Lexeme)
  | exportDefault (lexeme : Lexeme) (exported : Exported)
  | exportDeclared (lexeme : Lexeme) (declared : Declared)
  | declared (declared : Declared)
  | other (lexeme : Lexeme)

def Statement.lexeme : Statement → Lexeme
  | .importFrom l _ | .importOther l | .exportDefault l _ | .exportDeclared l _
  | .other l => l
  | .declared d => d.lexeme

end SchemaMigration.Source
