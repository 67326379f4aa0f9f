set_option autoImplicit false

namespace SchemaMigration.Text

def byteLength : List Char → Nat
  | [] => 0
  | c :: s => c.utf8Size + byteLength s

@[simp] theorem byteLength_nil : byteLength [] = 0 := rfl

@[simp] theorem byteLength_cons (c : Char) (s : List Char) :
    byteLength (c :: s) = c.utf8Size + byteLength s := rfl

@[simp] theorem byteLength_append (s t : List Char) :
    byteLength (s ++ t) = byteLength s + byteLength t := by
  induction s with
  | nil => simp
  | cons c s ih => simp [ih, Nat.add_assoc]

def splitBytes? : Nat → List Char → Option (List Char × List Char)
  | 0, s => some ([], s)
  | _ + 1, [] => none
  | n + 1, c :: s =>
    if n + 1 < c.utf8Size then none
    else (splitBytes? (n + 1 - c.utf8Size) s).map fun (front, rest) => (c :: front, rest)

theorem splitBytes?_byteLength_append (s t : List Char) :
    splitBytes? (byteLength s) (s ++ t) = some (s, t) := by
  induction s with
  | nil => simp [splitBytes?]
  | cons c s ih =>
    obtain ⟨n, size⟩ : ∃ n, c.utf8Size + byteLength s = n + 1 :=
      ⟨c.utf8Size + byteLength s - 1, by have := c.utf8Size_pos; omega⟩
    have cut : n + 1 - c.utf8Size = byteLength s := by omega
    have fits : ¬ n + 1 < c.utf8Size := by omega
    simp [size, splitBytes?, fits, cut, ih]

theorem append_of_splitBytes? {n : Nat} {s front rest : List Char}
    (cut : splitBytes? n s = some (front, rest)) : s = front ++ rest ∧ byteLength front = n := by
  induction s generalizing n front with
  | nil => cases n <;> simp_all [splitBytes?]
  | cons c s ih =>
    cases n with
    | zero => simp_all [splitBytes?]
    | succ n =>
      simp only [splitBytes?] at cut
      split at cut
      next => simp at cut
      next fits =>
        obtain ⟨⟨front', rest'⟩, inner, same⟩ := Option.map_eq_some_iff.mp cut
        obtain ⟨rfl, rfl⟩ : c :: front' = front ∧ rest' = rest := by simpa using same
        obtain ⟨whole, size⟩ := ih inner
        constructor
        next => simp [whole]
        next => simp [size]; omega

def slice? (s : List Char) (start stop : Nat) : Option (List Char) :=
  if stop < start then none
  else do
    let (_, rest) ← splitBytes? start s
    let (middle, _) ← splitBytes? (stop - start) rest
    return middle

theorem slice?_append (before middle after : List Char) :
    slice? (before ++ (middle ++ after)) (byteLength before)
      (byteLength before + byteLength middle) = some middle := by
  simp [slice?, splitBytes?_byteLength_append]

end SchemaMigration.Text
