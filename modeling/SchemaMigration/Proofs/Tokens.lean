import SchemaMigration.Source.Token
import SchemaMigration.Text.Quoted

set_option autoImplicit false

namespace SchemaMigration.Source

def separators : List Char :=
  ['\n', ',', ';']

section Names

theorem not_separator_of_accepted {accepts : Char → Bool} (rejects : separators.any accepts = false)
    {c : Char} (accepted : accepts c = true) : c ∉ separators := by
  intro member
  rw [List.any_eq_true.mpr ⟨c, member, accepted⟩] at rejects
  cases rejects

theorem not_separator_of_isHexDigit {c : Char} (hex : isHexDigit c = true) : c ∉ separators :=
  not_separator_of_accepted (by decide) hex

theorem not_separator_of_isNameChar {c : Char} (named : isNameChar c = true) : c ∉ separators :=
  not_separator_of_accepted (by decide) named

theorem codePointLength?_eq {s : List Char} {n : Nat} (found : codePointLength? s = some n) :
    ∃ rest, s = 'u' :: rest ∧ ((n = 5 ∧ 4 ≤ rest.length ∧ ∀ c ∈ rest.take 4, isHexDigit c = true) ∨
      ∃ digits after, rest = '\x7b' :: (digits ++ '\x7d' :: after) ∧ n = digits.length + 3 ∧
        0 < digits.length ∧ ∀ c ∈ digits, isHexDigit c = true) := by
  unfold codePointLength? at found
  split at found
  next rest =>
    refine ⟨rest, rfl, ?_⟩
    split at found
    next four =>
      simp only [Bool.and_eq_true, List.all_eq_true, beq_iff_eq, List.length_take] at four
      exact .inl ⟨by simpa using found.symm, by omega, four.2⟩
    next =>
      split at found
      next brace =>
        obtain ⟨inner, rfl⟩ : ∃ inner, rest = '\x7b' :: inner := by
          cases rest with
          | nil => simp at brace
          | cons first inner => exact ⟨inner, by simpa using brace⟩
        simp only [List.tail_cons, List.drop_succ_cons] at found
        split at found
        next closed =>
          simp only [Bool.and_eq_true, beq_iff_eq] at closed
          obtain ⟨tail, whole⟩ := List.takeWhile_prefix isHexDigit (l := inner)
          have same := congrArg (List.drop (inner.takeWhile isHexDigit).length) whole
          rw [List.drop_left] at same
          obtain ⟨after, rfl⟩ := List.head?_eq_some_iff.mp (same ▸ closed.2)
          refine .inr ⟨_, after, by rw [whole], by simpa using found.symm,
            of_decide_eq_true closed.1, ?_⟩
          exact List.all_eq_true.mp List.all_takeWhile
        next => cases found
      next => cases found
  next => cases found

theorem codePointLength?_take_append {s : List Char} {n : Nat} (found : codePointLength? s = some n)
    (rest : List Char) :
    n ≤ s.length ∧ codePointLength? (s.take n ++ rest) = some n := by
  obtain ⟨digits, rfl, ⟨rfl, four, hex⟩ | ⟨inner, after, rfl, rfl, filled, hex⟩⟩ :=
    codePointLength?_eq found
  next =>
    have long : (digits.take 4).length = 4 := by
      rw [List.length_take]
      omega
    have taken : (digits.take 4 ++ rest).take 4 = digits.take 4 := by
      rw [List.take_append_of_le_length (by omega), List.take_take, Nat.min_self]
    refine ⟨by simpa using four, ?_⟩
    rw [List.take_succ_cons, List.cons_append, codePointLength?, taken, long]
    simp [List.all_eq_true.mpr hex]
  next =>
    have taken : ('u' :: '\x7b' :: (inner ++ '\x7d' :: after)).take (inner.length + 3) ++ rest =
        'u' :: '\x7b' :: (inner ++ '\x7d' :: rest) := by
      simp [List.take_append, List.take_of_length_le]
    have brace : isHexDigit '\x7d' = false := by decide
    have digits : (inner ++ '\x7d' :: rest).takeWhile isHexDigit = inner := by
      rw [List.takeWhile_append_of_pos hex, List.takeWhile_cons_of_neg (by simp [brace]),
        List.append_nil]
    have open_ : isHexDigit '\x7b' = false := by decide
    refine ⟨by simp, ?_⟩
    rw [taken, codePointLength?]
    simp [digits, filled, open_]

theorem not_separator_of_codePointLength? {s : List Char} {n : Nat}
    (found : codePointLength? s = some n) {c : Char} (member : c ∈ s.take n) :
    c ∉ separators := by
  obtain ⟨rest, rfl, ⟨rfl, -, hex⟩ | ⟨digits, after, rfl, rfl, -, hex⟩⟩ := codePointLength?_eq found
  · rcases List.mem_cons.mp member with rfl | digit
    · decide
    · exact not_separator_of_isHexDigit (hex c digit)
  · have taken : ('u' :: '\x7b' :: (digits ++ '\x7d' :: after)).take (digits.length + 3) =
        'u' :: '\x7b' :: (digits ++ ['\x7d']) := by
      simp [List.take_append, List.take_of_length_le]
    rw [taken] at member
    simp only [List.mem_cons, List.mem_append, List.not_mem_nil, or_false] at member
    rcases member with rfl | rfl | digit | rfl
    · decide
    · decide
    · exact not_separator_of_isHexDigit (hex c digit)
    · decide

theorem nameCharLength?_eq {accepts : Char → Bool} {s : List Char} {n : Nat}
    (found : nameCharLength? accepts s = some n) : ∃ c rest m, s = c :: rest ∧ n = m + 1 ∧
      (accepts c = true ∧ m = 0 ∨ c = '\\' ∧ codePointLength? rest = some m) := by
  unfold nameCharLength? at found
  split at found
  next => cases found
  next c rest =>
    split at found
    next accepted => exact ⟨c, rest, 0, rfl, by simpa using found.symm, .inl ⟨accepted, rfl⟩⟩
    next =>
      split at found
      next escaped =>
        obtain ⟨m, digits, rfl⟩ := Option.map_eq_some_iff.mp found
        exact ⟨c, rest, m, rfl, rfl, .inr ⟨by simpa using escaped, digits⟩⟩
      next => cases found

theorem nameCharLength?_of_isNameStart {s : List Char} {n : Nat}
    (found : nameCharLength? isNameStart s = some n) : nameCharLength? isNameChar s = some n := by
  obtain ⟨c, rest, m, rfl, rfl, ⟨accepted, rfl⟩ | ⟨rfl, escape⟩⟩ := nameCharLength?_eq found
  next =>
    have named : isNameChar c = true := by
      simp only [isNameStart, Bool.and_eq_true] at accepted
      exact accepted.1
    simp [nameCharLength?, named]
  next =>
    have dark : isNameChar '\\' = false := by decide
    simp [nameCharLength?, dark, escape]

-- The characters still to be passed belong to an escape that was found before.
theorem not_separator_of_nameFrom {skip : Nat} {s : List Char}
    (passed : ∀ c ∈ s.take skip, c ∉ separators) :
    ∀ c ∈ s.take (nameFrom skip s), c ∉ separators := by
  fun_induction nameFrom skip s with
  | case1 => simp
  | case2 skip first rest ih =>
    rw [List.take_succ_cons, List.forall_mem_cons] at passed ⊢
    exact ⟨passed.1, ih passed.2⟩
  | case3 first rest n found ih =>
    obtain ⟨_, _, m, ⟨⟩, ⟨⟩, ⟨accepted, rfl⟩ | ⟨rfl, escape⟩⟩ := nameCharLength?_eq found
    · rw [List.take_succ_cons, List.forall_mem_cons]
      exact ⟨not_separator_of_isNameChar accepted, ih (by simp)⟩
    · rw [List.take_succ_cons, List.forall_mem_cons]
      exact ⟨by decide, ih fun c member => not_separator_of_codePointLength? escape member⟩
  | case4 => simp

theorem not_separator_of_nameLength? {s : List Char} {n : Nat} (found : nameLength? s = some n) :
    ∀ c ∈ s.take n, c ∉ separators := by
  unfold nameLength? at found
  split at found
  next =>
    obtain rfl : nameFrom 0 s = n := by simpa using found
    exact not_separator_of_nameFrom (by simp)
  next => cases found

theorem nameLength?_pos {s : List Char} {n : Nat} (found : nameLength? s = some n) :
    0 < (s.take n).length := by
  unfold nameLength? at found
  split at found
  next k start =>
    obtain rfl : nameFrom 0 s = n := by simpa using found
    have goesOn := nameCharLength?_of_isNameStart start
    obtain ⟨c, rest, m, rfl, rfl, -⟩ := nameCharLength?_eq start
    simp [nameFrom, goesOn]
  next => cases found

def IsName (s : List Char) : Prop :=
  nameLength? s = some s.length

instance (s : List Char) : Decidable (IsName s) :=
  inferInstanceAs (Decidable (nameLength? s = some s.length))

def EndsName (rest : List Char) : Prop :=
  ∀ c ∈ rest.head?, isNameChar c = false ∧ c ≠ '\\'

theorem EndsName.nil : EndsName [] :=
  nofun

theorem EndsName.nameFrom {rest : List Char} (ends : EndsName rest) : nameFrom 0 rest = 0 := by
  cases rest with
  | nil => rfl
  | cons c rest =>
    obtain ⟨dark, plain⟩ := ends c rfl
    simp [Source.nameFrom, nameCharLength?, dark, plain]

theorem le_nameFrom {skip : Nat} {s : List Char} (within : skip ≤ s.length) :
    skip ≤ nameFrom skip s := by
  induction s generalizing skip with
  | nil => exact within
  | cons c rest ih =>
    cases skip with
    | zero => omega
    | succ skip =>
      have later : skip ≤ nameFrom skip rest := ih (by simpa using within)
      rw [nameFrom]
      omega

theorem nameFrom_le (skip : Nat) (s : List Char) : nameFrom skip s ≤ s.length := by
  fun_induction nameFrom skip s with
  | case1 => simp
  | case2 skip first tail ih => simpa using ih
  | case3 first tail n found ih => simpa using ih
  | case4 => simp

theorem nameCharLength?_take_append {accepts : Char → Bool} (dark : accepts '\\' = false) {c : Char}
    {s : List Char} {n k : Nat} (found : nameCharLength? accepts (c :: s) = some (n + 1))
    (enough : n ≤ k) (rest : List Char) :
    n ≤ s.length ∧ nameCharLength? accepts (c :: (s.take k ++ rest)) = some (n + 1) := by
  obtain ⟨_, _, m, ⟨⟩, ⟨⟩, ⟨accepted, rfl⟩ | ⟨rfl, escape⟩⟩ := nameCharLength?_eq found
  next => exact ⟨by omega, by simp [nameCharLength?, accepted]⟩
  next =>
    have taken : s.take k = s.take n ++ (s.take k).drop n := by
      have halves := List.take_append_drop n (s.take k)
      rw [List.take_take, Nat.min_eq_left enough] at halves
      exact halves.symm
    obtain ⟨within, same⟩ := codePointLength?_take_append escape ((s.take k).drop n ++ rest)
    refine ⟨within, ?_⟩
    rw [taken, List.append_assoc]
    simp [nameCharLength?, dark, same]

theorem nameFrom_take_append {skip : Nat} {s rest : List Char} (ends : EndsName rest)
    (within : skip ≤ s.length) :
    nameFrom skip (s.take (nameFrom skip s) ++ rest) = nameFrom skip s := by
  fun_induction nameFrom skip s with
  | case1 skip =>
    obtain rfl : skip = 0 := by simpa using within
    exact ends.nameFrom
  | case2 skip first tail ih =>
    rw [List.take_succ_cons, List.cons_append, nameFrom, ih (by simpa using within)]
  | case3 first tail n found ih =>
    obtain ⟨inside, -⟩ := nameCharLength?_take_append (by decide) found (Nat.le_refl n) []
    obtain ⟨-, same⟩ := nameCharLength?_take_append (by decide) found (le_nameFrom inside) rest
    rw [List.take_succ_cons, List.cons_append, nameFrom, same]
    exact congrArg (· + 1) (ih inside)
  | case4 first tail none => exact ends.nameFrom

theorem nameLength?_take_append {s rest : List Char} {n : Nat} (found : nameLength? s = some n)
    (ends : EndsName rest) : nameLength? (s.take n ++ rest) = some n := by
  unfold nameLength? at found
  split at found
  next k start =>
    obtain rfl : nameFrom 0 s = n := by simpa using found
    obtain ⟨c, tail, m, rfl, rfl, -⟩ := nameCharLength?_eq start
    have goesOn := nameCharLength?_of_isNameStart start
    have length : nameFrom 0 (c :: tail) = nameFrom m tail + 1 := by rw [nameFrom, goesOn]
    obtain ⟨inside, -⟩ := nameCharLength?_take_append (by decide) start (Nat.le_refl m) []
    obtain ⟨-, same⟩ := nameCharLength?_take_append (by decide) start (le_nameFrom inside) rest
    have whole := nameFrom_take_append (s := c :: tail) ends (Nat.zero_le _)
    rw [nameLength?, whole]
    rw [length, List.take_succ_cons, List.cons_append, same]
  next => cases found

theorem IsName.nameLength?_append {s rest : List Char} (name : IsName s) (ends : EndsName rest) :
    nameLength? (s ++ rest) = some s.length := by
  have same := nameLength?_take_append name ends
  rwa [List.take_length] at same

theorem isName_take {s : List Char} {n : Nat} (found : nameLength? s = some n) :
    IsName (s.take n) := by
  have within : n ≤ s.length := by
    unfold nameLength? at found
    split at found <;> cases found
    exact nameFrom_le 0 s
  have same := nameLength?_take_append found (EndsName.nil)
  rw [List.append_nil] at same
  rw [IsName, same, List.length_take, Nat.min_eq_left within]

theorem isSpace_of_isNameChar {c : Char} (named : isNameChar c = true) :
    isSpace c = false ∧ isPunctuation c = false := by
  simp only [isNameChar, Bool.and_eq_true, Bool.not_eq_true'] at named
  exact ⟨named.1.2, named.2⟩

def StartsName (s : List Char) : Prop :=
  ∃ c rest, s = c :: rest ∧ (isNameStart c = true ∨ c = '\\')

theorem StartsName.append {s : List Char} (starts : StartsName s) (rest : List Char) :
    StartsName (s ++ rest) := by
  obtain ⟨c, tail, rfl, start⟩ := starts
  exact ⟨c, tail ++ rest, rfl, start⟩

theorem startsName_of_nameLength? {s : List Char} {n : Nat} (found : nameLength? s = some n) :
    StartsName s := by
  unfold nameLength? at found
  split at found
  next start =>
    obtain ⟨c, rest, m, rfl, -, ⟨accepted, -⟩ | ⟨escaped, -⟩⟩ := nameCharLength?_eq start
    · exact ⟨c, rest, rfl, .inl accepted⟩
    · exact ⟨c, rest, rfl, .inr escaped⟩
  next => cases found

theorem IsName.startsName {s : List Char} (name : IsName s) : StartsName s :=
  startsName_of_nameLength? name

theorem IsName.plain {s : List Char} (name : IsName s) : ∀ c ∈ s, c ∉ separators := by
  have plain := not_separator_of_nameLength? name
  rwa [List.take_length] at plain

end Names

section Strings

theorem stringFrom?_eq {quote : Char} {skip : Nat} {s : List Char} {n : Nat}
    (found : stringFrom? quote skip s = some n) :
    ∃ body after, s = body ++ quote :: after ∧ n = body.length + 1 := by
  have longer {rest : List Char} {m n : Nat} (c : Char)
      (inner : ∃ body after, rest = body ++ quote :: after ∧ m = body.length + 1)
      (count : m + 1 = n) :
      ∃ body after, c :: rest = body ++ quote :: after ∧ n = body.length + 1 := by
    obtain ⟨body, after, rfl, rfl⟩ := inner
    exact ⟨c :: body, after, rfl, by simpa using count.symm⟩
  fun_induction stringFrom? quote skip s generalizing n with
  | case1 => cases found
  | case2 skip c rest ih =>
    obtain ⟨m, inner, count⟩ := Option.map_eq_some_iff.mp found
    exact longer c (ih inner) count
  | case3 c rest closes =>
    obtain rfl : c = quote := by simpa using closes
    exact ⟨[], rest, rfl, by simpa using found.symm⟩
  | case4 c rest _ _ m _ ih =>
    obtain ⟨m, inner, count⟩ := Option.map_eq_some_iff.mp found
    exact longer c (ih inner) count
  | case5 => cases found
  | case6 => cases found
  | case7 c rest _ _ _ ih =>
    obtain ⟨m, inner, count⟩ := Option.map_eq_some_iff.mp found
    exact longer c (ih inner) count

theorem stringLength?_eq {s : List Char} {n : Nat} (found : stringLength? s = some n) :
    ∃ q body after, s = q :: (body ++ q :: after) ∧ n = body.length + 2 ∧
      Text.isQuote q = true ∧ q.utf8Size = 1 := by
  unfold stringLength? at found
  split at found
  next => cases found
  next q rest =>
    split at found
    next isQuote =>
      obtain ⟨m, inner, rfl⟩ := Option.map_eq_some_iff.mp found
      obtain ⟨body, after, rfl, rfl⟩ := stringFrom?_eq inner
      have kind : q = '\'' ∨ q = '"' := by simpa using isQuote
      refine ⟨q, body, after, rfl, rfl, ?_⟩
      rcases kind with rfl | rfl <;> exact ⟨by decide, by decide⟩
    next => cases found

def IsString (s : List Char) : Prop :=
  stringLength? s = some s.length

instance (s : List Char) : Decidable (IsString s) :=
  inferInstanceAs (Decidable (stringLength? s = some s.length))

end Strings

end SchemaMigration.Source
