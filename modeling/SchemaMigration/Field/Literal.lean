set_option autoImplicit false

namespace SchemaMigration

inductive Literal where
  | null
  | bool (value : Bool)
  | number (text : String)
  | string (contents : String)
  | array (items : List Literal)
  | object (entries : List (String × Literal))
  | raw (text : String)
deriving Repr, Inhabited

namespace Literal

def asBool? : Literal → Option Bool
  | .bool value => some value
  | _ => none

def asString? : Literal → Option String
  | .string contents => some contents
  | _ => none

def strings (items : List String) : Literal :=
  .array (items.map .string)

def isNested : Literal → Bool
  | .array _ | .object _ => true
  | _ => false

end Literal

structure FieldOptions where
  entries : List (String × Literal)
deriving Repr

namespace FieldOptions

def empty : FieldOptions := ⟨[]⟩

def isEmpty (o : FieldOptions) : Bool := o.entries.isEmpty

def size (o : FieldOptions) : Nat := o.entries.length

def keys (o : FieldOptions) : List String := o.entries.map Prod.fst

def get? (o : FieldOptions) (key : String) : Option Literal :=
  o.entries.lookup key

def setEntry (key : String) (value : Literal) :
    List (String × Literal) → List (String × Literal)
  | [] => [(key, value)]
  | (k, v) :: rest => if k == key then (k, value) :: rest else (k, v) :: setEntry key value rest

def insert (o : FieldOptions) (key : String) (value : Literal) : FieldOptions :=
  ⟨setEntry key value o.entries⟩

def merge (o overrides : FieldOptions) : FieldOptions :=
  overrides.entries.foldl (fun options (key, value) => options.insert key value) o

def ofList (entries : List (String × Literal)) : FieldOptions :=
  empty.merge ⟨entries⟩

end FieldOptions

end SchemaMigration
