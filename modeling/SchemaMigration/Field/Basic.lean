import SchemaMigration.Field.Decode
import SchemaMigration.SourceFile.Import

set_option autoImplicit false

namespace SchemaMigration

open Source

inductive FieldKind where
  | attribute
  | belongsTo
  | hasMany
  | fragment
  | fragmentArray
  | array
deriving DecidableEq, Repr

namespace FieldKind

def ofFunction? : String → Option FieldKind
  | "attr" => some .attribute
  | "belongsTo" => some .belongsTo
  | "hasMany" => some .hasMany
  | "fragment" => some .fragment
  | "fragmentArray" => some .fragmentArray
  | "array" => some .array
  | _ => none

def isRelationship : FieldKind → Bool
  | .belongsTo | .hasMany => true
  | _ => false

end FieldKind

structure Field where
  kind : FieldKind
  name : String
  type? : Option String
  options : FieldOptions
deriving Repr

namespace Field

def isPolymorphic (f : Field) : Bool :=
  f.kind.isRelationship && ((f.options.get? "polymorphic").bind Literal.asBool?).getD false

end Field

structure FieldCall where
  kind : FieldKind
  type? : Option String
  options : FieldOptions

inductive CallFault where
  | optionsNotPlain (text : String)
  | unsupportedArgument (position : Nat) (text : String)

def CallFault.message : CallFault → String
  | .optionsNotPlain text => "options are not a plain object literal: " ++ text
  | .unsupportedArgument position text => s!"unsupported argument {position}: {text}"

namespace FieldCall

def calleeName? (imports : List Import) : Expr → Option String
  | .identifier lexeme =>
    match Import.findBinding? imports lexeme.text with
    | some (_, { imported := .named name, .. }) => some name
    | _ => some lexeme.text
  | .access _ _ property => some property.text
  | _ => none

def addArgument (call : FieldCall) (position : Nat) (argument : Expr) :
    Except CallFault FieldCall :=
  let unsupported := .error (.unsupportedArgument position argument.text)
  match argument with
  | .object lexeme _ =>
    -- An empty object in the first place leaves room for options in the second.
    if position ≤ 2 && call.options.isEmpty then
      match Literal.ofExpr argument with
      | .object entries => .ok { call with options := ⟨entries⟩ }
      | _ => .error (.optionsNotPlain lexeme.text)
    else unsupported
  | argument =>
    match plainString? argument with
    | some text => if position == 1 then .ok { call with type? := some text } else unsupported
    | none => unsupported

def addArguments (call : FieldCall) : Nat → List Expr → Except CallFault FieldCall
  | _, [] => .ok call
  | position, argument :: rest =>
    match call.addArgument position argument with
    | .ok next => next.addArguments (position + 1) rest
    | .error fault => .error fault

def parts? : Expr → Option (Expr × List Expr)
  | .call _ callee arguments => some (callee, arguments)
  | .identifier lexeme => some (.identifier lexeme, [])
  | .access lexeme object property => some (.access lexeme object property, [])
  | _ => none

def read? (imports : List Import) (e : Expr) : Option (Except CallFault FieldCall) := do
  let (callee, arguments) ← parts? e
  let kind ← (calleeName? imports callee).bind FieldKind.ofFunction?
  return addArguments { kind, type? := none, options := .empty } 1 arguments

def toField (call : FieldCall) (name : String) : Field :=
  { kind := call.kind, name, type? := call.type?, options := call.options }

end FieldCall

end SchemaMigration
