import SchemaMigration.Path.Basic

set_option autoImplicit false

namespace SchemaMigration

namespace Path

def dropRepeatedAfter (p : Path) : List Path → List Path
  | [] => []
  | q :: rest => if p == q then dropRepeatedAfter p rest else q :: dropRepeatedAfter q rest

def dropRepeated : List Path → List Path
  | [] => []
  | p :: rest => p :: dropRepeatedAfter p rest

def sort (paths : List Path) : List Path :=
  paths.mergeSort Path.le

def sortedSet (paths : List Path) : List Path :=
  dropRepeated (sort paths)

end Path

abbrev PathMap (α : Type) := List (Path × α)

namespace PathMap

variable {α : Type}

def get? (m : PathMap α) (p : Path) : Option α :=
  m.lookup p

def contains (m : PathMap α) (p : Path) : Bool :=
  (m.get? p).isSome

def insert (m : PathMap α) (p : Path) (value : α) : PathMap α :=
  match m with
  | [] => [(p, value)]
  | (q, old) :: rest => if p == q then (q, value) :: rest else (q, old) :: insert rest p value

def sorted (m : PathMap α) : PathMap α :=
  m.mergeSort fun a b => a.1.le b.1

end PathMap

end SchemaMigration
