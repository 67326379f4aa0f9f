import SchemaMigration.Field.Basic

set_option autoImplicit false

namespace SchemaMigration

open Source

inductive MemberOrigin where
  | classBody
  | objectLiteral
deriving DecidableEq, Repr

structure Behavior where
  name : Option String
  span : Span
  origin : MemberOrigin
  isClassField : Bool
deriving DecidableEq, Repr

inductive MemberReading where
  | field (field : Field)
  | behavior (behavior : Behavior) (warning : Option String)

namespace MemberReading

def field? : MemberReading → Option Field
  | .field f => some f
  | .behavior .. => none

def behavior? : MemberReading → Option Behavior
  | .field _ => none
  | .behavior b _ => some b

def warning? : MemberReading → Option String
  | .field _ => none
  | .behavior _ warning => warning

end MemberReading

def ignoredField (name : String) (fault : CallFault) : String :=
  s!"field '{name}' ignored: " ++ fault.message

def decoratedField? (imports : List Import) (decorators : List Decorator) :
    Option (Except CallFault FieldCall) :=
  decorators.findSome? fun d => FieldCall.read? imports d.expression

def readField (call : Option (Except CallFault FieldCall)) (name : String) (behavior : Behavior) :
    MemberReading :=
  match call with
  | some (.ok call) => .field (call.toField name)
  | some (.error fault) => .behavior behavior (some (ignoredField name fault))
  | none => .behavior behavior none

def readClassMember? (imports : List Import) (start : Nat) : ClassMember → Option MemberReading
  | .comment _ | .decorators _ => none
  | .field lexeme key decorators =>
    let name := Text.unquote key.lexeme.text
    readField (decoratedField? imports decorators) name
      ⟨some name, ⟨start, lexeme.span.stop⟩, .classBody, true⟩
  | .method lexeme key =>
    some (.behavior ⟨some key.lexeme.text, ⟨start, lexeme.span.stop⟩, .classBody, false⟩ none)
  | .signature lexeme name =>
    some (.behavior ⟨some name.text, ⟨start, lexeme.span.stop⟩, .classBody, true⟩ none)
  | .staticBlock lexeme =>
    some (.behavior ⟨none, ⟨start, lexeme.span.stop⟩, .classBody, false⟩ none)

def readObjectMember? (imports : List Import) (start : Nat) : ObjectMember → Option MemberReading
  | .comment _ => none
  | .pair lexeme key value =>
    let name := Text.unquote key.lexeme.text
    readField (FieldCall.read? imports value) name
      ⟨some name, ⟨start, lexeme.span.stop⟩, .objectLiteral, false⟩
  | .method lexeme key =>
    some (.behavior ⟨some key.lexeme.text, ⟨start, lexeme.span.stop⟩, .objectLiteral, false⟩ none)
  | .shorthand lexeme =>
    some (.behavior ⟨some lexeme.text, ⟨start, lexeme.span.stop⟩, .objectLiteral, false⟩ none)
  | .spread lexeme =>
    some (.behavior ⟨none, ⟨start, lexeme.span.stop⟩, .objectLiteral, false⟩ none)

-- Reads members in order; `pending` is where what stands in front of the next one starts.
def readMembers {α : Type} (place : α → Span) (read? : Nat → α → Option MemberReading) :
    Option Nat → List α → List MemberReading
  | _, [] => []
  | pending, member :: rest =>
    let start := pending.getD (place member).start
    match read? start member with
    | none => readMembers place read? (some start) rest
    | some reading => reading :: readMembers place read? none rest

def readClassMembers (imports : List Import) (members : List ClassMember) : List MemberReading :=
  readMembers (·.lexeme.span) (readClassMember? imports) none members

def readObjectMembers (imports : List Import) (members : List ObjectMember) :
    List MemberReading :=
  readMembers (·.lexeme.span) (readObjectMember? imports) none members

end SchemaMigration
