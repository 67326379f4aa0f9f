import SchemaMigration.Path.Basic
import SchemaMigration.Text.Parts

set_option autoImplicit false

namespace SchemaMigration

structure PatternMatch where
  capture : Option String
  rest : String
deriving DecidableEq, Repr

def afterSteps? (beginning s : List Char) : Option (List Char) :=
  match beginning.isPrefixOf? s with
  | none => none
  | some [] => some []
  | some (c :: rest) => if c == '/' then some rest else none

namespace Pattern

def restAfter? (after s : List Char) : Option (List Char) :=
  if after.isEmpty then some (s.dropWhile (· == '/')) else afterSteps? after s

def matchChars? (pattern specifier : List Char) : Option PatternMatch := do
  match Text.splitAtStar? (Text.trimSlashes pattern) with
  | none =>
    let rest ← afterSteps? (Text.trimSlashes pattern) specifier
    return { capture := none, rest := String.ofList rest }
  | some (before, after) =>
    let tail ← before.isPrefixOf? specifier
    let capture := tail.takeWhile (· != '/')
    guard !capture.isEmpty
    let rest ← restAfter? after (tail.dropWhile (· != '/'))
    return { capture := some (String.ofList capture), rest := String.ofList rest }

def match? (pattern specifier : String) : Option PatternMatch :=
  matchChars? pattern.toList specifier.toList

def substitute (template : Path) : Option String → Path
  | none => template
  | some capture =>
    match Text.splitAtStar? template.text.toList with
    | some (before, after) => ⟨String.ofList before ++ capture ++ String.ofList after⟩
    | none => template.join ⟨capture⟩

def expand (template : Path) (m : PatternMatch) : Path :=
  let base := substitute template m.capture
  if m.rest.isEmpty then base else base.join ⟨m.rest⟩

end Pattern

end SchemaMigration
