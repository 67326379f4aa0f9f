set_option autoImplicit false

namespace SchemaMigration.Character

def flips : Bool → List Nat → Nat → Bool
  | inside, [], _ => inside
  | inside, next :: later, n => if n < next then inside else flips (!inside) later n

@[simp] theorem flips_nil (inside : Bool) (n : Nat) : flips inside [] n = inside := rfl

theorem flips_before (inside : Bool) {next n : Nat} (later : List Nat) (before : n < next) :
    flips inside (next :: later) n = inside := by
  simp [flips, before]

theorem flips_after (inside : Bool) {next n : Nat} (later : List Nat) (after : next ≤ n) :
    flips inside (next :: later) n = flips (!inside) later n := by
  simp [flips, Nat.not_lt.mpr after]

-- A set of characters, written as the sorted code points at which membership changes.
structure CharSet where
  changes : List Nat

def CharSet.contains (s : CharSet) (c : Char) : Bool :=
  flips false s.changes c.toNat

structure Shift where
  first : Nat
  last : Nat
  stride : Nat
  offset : Int

def Shift.covers (s : Shift) (n : Nat) : Bool :=
  s.first ≤ n && n ≤ s.last && (n - s.first) % s.stride == 0

def Shift.apply (s : Shift) (n : Nat) : Nat :=
  (n + s.offset).toNat

structure CaseMap where
  several : List (Nat × List Nat)
  shifts : List Shift

def CaseMap.map (m : CaseMap) (c : Char) : List Char :=
  match m.several.lookup c.toNat with
  | some targets => targets.map Char.ofNat
  | none =>
    match m.shifts.find? (·.covers c.toNat) with
    | some s => [Char.ofNat (s.apply c.toNat)]
    | none => [c]

end SchemaMigration.Character
