set_option autoImplicit false

namespace SchemaMigration

inductive Json where
  | null
  | bool (value : Bool)
  | number (text : String)
  | string (contents : String)
  -- A string whose escapes denote no text.
  | illegible
  | array (items : List Json)
  | object (entries : List (String × Json))
deriving Repr, Inhabited

namespace Json

def nat (n : Nat) : Json := .number (Nat.repr n)

def strings (items : List String) : Json := .array (items.map .string)

def optional {α : Type} (encode : α → Json) : Option α → Json
  | none => .null
  | some value => encode value

def field? (key : String) : Json → Option Json
  | .object entries => entries.lookup key
  | _ => none

def asString? : Json → Option String
  | .string contents => some contents
  | _ => none

def asBool? : Json → Option Bool
  | .bool value => some value
  | _ => none

def asArray? : Json → Option (List Json)
  | .array items => some items
  | _ => none

def asNat? : Json → Option Nat
  | .number text => text.toNat?
  | _ => none

mutual

def sorted : Json → Json
  | .array items => .array (sortedItems items)
  | .object entries => .object ((sortedEntries entries).mergeSort fun a b => decide (a.1 ≤ b.1))
  | other => other

def sortedItems : List Json → List Json
  | [] => []
  | item :: rest => item.sorted :: sortedItems rest

def sortedEntries : List (String × Json) → List (String × Json)
  | [] => []
  | (key, value) :: rest => (key, value.sorted) :: sortedEntries rest

end

end Json

end SchemaMigration
