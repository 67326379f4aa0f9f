import SchemaMigration.Proofs.Tokens
import SchemaMigration.Text.Identifier

set_option autoImplicit false

namespace SchemaMigration

namespace Character

def insidePoints : List Nat → List Nat
  | first :: next :: later => List.range' first (next - first) ++ insidePoints later
  | _ => []

theorem mem_insidePoints {changes : List Nat} {n : Nat} (even : changes.length % 2 = 0)
    (inside : flips false changes n = true) : n ∈ insidePoints changes := by
  fun_induction insidePoints changes with
  | case1 first next later ih =>
    rw [List.mem_append, List.mem_range'_1]
    by_cases before : n < first
    · rw [flips_before false _ before] at inside
      cases inside
    rw [flips_after false _ (Nat.not_lt.mp before)] at inside
    by_cases between : n < next
    · exact .inl (by omega)
    rw [flips_after _ _ (Nat.not_lt.mp between)] at inside
    simp only [List.length_cons] at even
    exact .inr (ih (by omega) inside)
  | case2 changes short =>
    cases changes with
    | nil => cases inside
    | cons first more =>
      cases more with
      | nil => simp at even
      | cons next later => exact absurd rfl (short first next later)

end Character

namespace Source

open Character

def namelessPoints : List Nat :=
  List.range 33 ++ insidePoints blank.changes ++ [0xFEFF, 0x2060, 0x200B] ++
    ":;\x60\"'@#.,|^&<=>+-*/\\%?!~()[]\x7b\x7d".toList.map Char.toNat

theorem mem_namelessPoints {c : Char} (nameless : isNameChar c = false) :
    c.toNat ∈ namelessPoints := by
  simp only [namelessPoints, List.mem_append, List.mem_map]
  simp only [isNameChar, Bool.and_eq_false_iff, Bool.not_eq_false', decide_eq_false_iff_not]
    at nameless
  rcases nameless with (control | space) | mark
  · have small : c.toNat ≤ 32 := Nat.not_lt.mp control
    exact .inl (.inl (.inl (List.mem_range.mpr (by omega))))
  · simp only [isSpace, Bool.or_eq_true, beq_iff_eq] at space
    rcases space with ((blank | rfl) | rfl) | rfl
    · exact .inl (.inl (.inr (mem_insidePoints rfl blank)))
    all_goals exact .inl (.inr (by decide))
  · exact .inr ⟨c, by simpa [isPunctuation] using mark, rfl⟩

theorem isNameChar_of_accepted {accepts : Char → Bool}
    (table : ∀ n ∈ namelessPoints, accepts (Char.ofNat n) = false) {c : Char}
    (held : accepts c = true) : isNameChar c = true := by
  cases named : isNameChar c with
  | true => rfl
  | false =>
    have strange := table c.toNat (mem_namelessPoints named)
    rw [Char.ofNat_toNat, held] at strange
    cases strange

theorem isNameChar_of_isIdentifierChar {c : Char} (held : isIdentifierChar c = true) :
    isNameChar c = true :=
  isNameChar_of_accepted (by decide +kernel) held

theorem isNameStart_of_isIdentifierChar {c : Char} (held : isIdentifierChar c = true)
    (digit : c.isDigit = false) : isNameStart c = true := by
  rw [isNameStart, isNameChar_of_isIdentifierChar held, digit]
  rfl

theorem nameFrom_eq_length {s : List Char} (named : ∀ c ∈ s, isNameChar c = true) :
    nameFrom 0 s = s.length := by
  induction s with
  | nil => rfl
  | cons c s ih =>
    have first := named c List.mem_cons_self
    have later := ih fun x member => named x (List.mem_cons_of_mem c member)
    simp [nameFrom, nameCharLength?, first, later]

theorem exists_of_isIdentifier {text : String} (identifier : Text.isIdentifier text = true) :
    ∃ c rest, text.toList = c :: rest ∧ isNameStart c = true ∧
      ∀ x ∈ c :: rest, isNameChar x = true := by
  rw [Text.isIdentifier.eq_def] at identifier
  split at identifier
  next => cases identifier
  next c rest chars =>
    obtain ⟨first, later⟩ := Bool.and_eq_true_iff.mp identifier
    have held : isIdentifierChar c = true := by
      simp only [Bool.or_eq_true] at first
      simp only [isIdentifierChar, isAlphanumeric, Bool.or_eq_true]
      exact first.imp_left (Or.imp_left Or.inl)
    have table : ∀ n ∈ List.range' 48 10,
        (isAlphabetic (Char.ofNat n) || Char.ofNat n == '_' || Char.ofNat n == '$') = false := by
      decide +kernel
    have start : isNameStart c = true := by
      refine isNameStart_of_isIdentifierChar held ?_
      cases digit : c.isDigit with
      | false => rfl
      | true =>
        obtain ⟨low, high⟩ : 48 ≤ c.toNat ∧ c.toNat ≤ 57 := by
          simpa [Char.isDigit, UInt32.le_iff_toNat_le] using digit
        have strange := table c.toNat (List.mem_range'_1.mpr (by omega))
        rw [Char.ofNat_toNat, first] at strange
        cases strange
    refine ⟨c, rest, chars, start, fun x member => ?_⟩
    rcases List.mem_cons.mp member with rfl | member
    · exact isNameChar_of_isIdentifierChar held
    · exact isNameChar_of_isIdentifierChar (List.all_eq_true.mp later x member)

theorem isName_of_isIdentifier {text : String} (identifier : Text.isIdentifier text = true) :
    IsName text.toList := by
  obtain ⟨c, rest, chars, start, named⟩ := exists_of_isIdentifier identifier
  rw [chars, IsName, nameLength?]
  simp only [nameCharLength?, start, if_true]
  rw [nameFrom_eq_length named]

section Numbers

variable {s rest : List Char} {n : Nat}

section Digits

variable {digit : Char → Bool}

def EndsDigits (digit : Char → Bool) (rest : List Char) : Prop :=
  ∀ c ∈ rest.head?, digit c = false ∧ c ≠ '_'

theorem endsDigits_append {t : List Char} {c : Char} (head : t.head? = some c)
    (dark : digit c = false) (differ : c ≠ '_') (rest : List Char) :
    EndsDigits digit (t ++ rest) := by
  obtain ⟨more, rfl⟩ := List.head?_eq_some_iff.mp head
  rintro x ⟨⟩
  exact ⟨dark, differ⟩

theorem moreDigits_digit (underscore : digit '_' = false) {c : Char} (held : digit c = true)
    (s : List Char) : moreDigits digit (c :: s) = moreDigits digit s + 1 := by
  have differ : c ≠ '_' := by
    rintro rfl
    rw [underscore] at held
    cases held
  rw [moreDigits, if_pos held]
  exact fun _ _ first _ => differ first

theorem EndsDigits.moreDigits (ends : EndsDigits digit rest) : moreDigits digit rest = 0 := by
  cases rest with
  | nil => rfl
  | cons c rest =>
    obtain ⟨dark, differ⟩ := ends c rfl
    rw [Source.moreDigits, if_neg (by simp [dark])]
    exact fun _ _ first _ => differ first

theorem EndsDigits.digitsLength? (ends : EndsDigits digit rest) :
    digitsLength? digit rest = none := by
  cases rest with
  | nil => rfl
  | cons c rest => rw [Source.digitsLength?, (ends c rfl).1, if_neg Bool.false_ne_true]

theorem moreDigits_le (digit : Char → Bool) (s : List Char) : moreDigits digit s ≤ s.length := by
  fun_induction moreDigits digit s with
  | case1 | case3 | case5 => exact Nat.zero_le _
  | case2 c tail held ih => exact Nat.add_le_add_right ih 2
  | case4 c tail single held ih => exact Nat.add_le_add_right ih 1

theorem moreDigits_take_append (underscore : digit '_' = false) (ends : EndsDigits digit rest)
    (s : List Char) :
    moreDigits digit (s.take (moreDigits digit s) ++ rest) = moreDigits digit s := by
  fun_induction moreDigits digit s with
  | case1 => exact ends.moreDigits
  | case2 c tail held ih =>
    rw [List.take_succ_cons, List.take_succ_cons, List.cons_append, List.cons_append, moreDigits,
      if_pos held, ih]
  | case3 c tail dark => exact ends.moreDigits
  | case4 c tail single held ih =>
    rw [List.take_succ_cons, List.cons_append, moreDigits_digit underscore held, ih]
  | case5 c tail single dark => exact ends.moreDigits

theorem digitsLength?_take_append (underscore : digit '_' = false) (ends : EndsDigits digit rest)
    (found : digitsLength? digit s = some n) :
    n ≤ s.length ∧ 0 < n ∧ digitsLength? digit (s.take n ++ rest) = some n := by
  rw [digitsLength?.eq_def] at found
  split at found
  next => cases found
  next c tail =>
    split at found
    next held =>
      cases found
      refine ⟨by simpa using moreDigits_le digit tail, Nat.succ_pos _, ?_⟩
      rw [List.take_succ_cons, List.cons_append, digitsLength?, if_pos held,
        moreDigits_take_append underscore ends]
    next => cases found

theorem digitsLength?_append (underscore : digit '_' = false) {digits t t' : List Char}
    (found : digitsLength? digit (digits ++ t) = some digits.length) (ends : EndsDigits digit t') :
    digitsLength? digit (digits ++ t') = some digits.length := by
  have same := (digitsLength?_take_append underscore ends found).2.2
  rwa [List.take_left] at same

end Digits

def EndsNumber (rest : List Char) : Prop :=
  ∀ c ∈ rest.head?, isNameChar c = false ∧ c ≠ '.'

theorem EndsNumber.nil : EndsNumber [] :=
  nofun

theorem EndsNumber.head?_ne (ends : EndsNumber rest) {c : Char} (named : isNameChar c = true) :
    rest.head? ≠ some c := by
  intro head
  have dark := (ends c head).1
  rw [named] at dark
  cases dark

theorem EndsNumber.endsDigits (ends : EndsNumber rest) {digit : Char → Bool}
    (nameless : ∀ n ∈ namelessPoints, digit (Char.ofNat n) = false) : EndsDigits digit rest := by
  intro c head
  constructor
  · cases held : digit c with
    | false => rfl
    | true => exact absurd head (ends.head?_ne (isNameChar_of_accepted nameless held))
  · rintro rfl
    exact ends.head?_ne (by decide) head

theorem EndsNumber.endsDecimal (ends : EndsNumber rest) : EndsDigits Char.isDigit rest :=
  ends.endsDigits (by decide +kernel)

section Exponents

theorem exponentLength?_take_append (ends : EndsNumber rest) (found : exponentLength? s = some n) :
    n ≤ s.length ∧ exponentLength? (s.take n ++ rest) = some n := by
  rw [exponentLength?.eq_def] at found
  split at found
  next c tail =>
    split at found
    next mark =>
      split at found
      next sign digits =>
        split at found
        next signed =>
          obtain ⟨m, inner, rfl⟩ := Option.map_eq_some_iff.mp found
          obtain ⟨within, -, same⟩ := digitsLength?_take_append (by decide) ends.endsDecimal inner
          refine ⟨by simpa using within, ?_⟩
          rw [List.take_succ_cons, List.take_succ_cons, List.cons_append, List.cons_append,
            exponentLength?, if_pos mark, if_pos signed, same, Option.map_some]
        next unsigned =>
          obtain ⟨m, inner, rfl⟩ := Option.map_eq_some_iff.mp found
          obtain ⟨within, pos, same⟩ := digitsLength?_take_append (by decide) ends.endsDecimal inner
          obtain ⟨m, rfl⟩ : ∃ k, m = k + 1 := ⟨m - 1, by omega⟩
          refine ⟨by simpa using within, ?_⟩
          rw [List.take_succ_cons, List.cons_append] at same
          rw [List.take_succ_cons, List.take_succ_cons, List.cons_append, List.cons_append,
            exponentLength?, if_pos mark, if_neg unsigned, same, Option.map_some]
      next => cases found
    next => cases found
  next => cases found

theorem head?_of_exponentLength? (found : exponentLength? s = some n) :
    ∃ c, s.head? = some c ∧ (c = 'e' ∨ c = 'E') := by
  rw [exponentLength?.eq_def] at found
  split at found
  next c tail =>
    split at found
    next mark => exact ⟨c, rfl, by simpa using mark⟩
    next => cases found
  next => cases found

theorem EndsNumber.exponentLength? (ends : EndsNumber rest) : exponentLength? rest = none := by
  cases found : Source.exponentLength? rest with
  | none => rfl
  | some n =>
    obtain ⟨c, head, rfl | rfl⟩ := head?_of_exponentLength? found
    · exact absurd head (ends.head?_ne (by decide))
    · exact absurd head (ends.head?_ne (by decide))

theorem withExponent_take_append (ends : EndsNumber rest) {length : Nat}
    (within : length ≤ s.length) :
    ∃ t, length + t.length = withExponent length s ∧ withExponent length s ≤ s.length ∧
      s.take (withExponent length s) ++ rest = s.take length ++ (t ++ rest) ∧
      withExponent length (s.take length ++ (t ++ rest)) = withExponent length s ∧
      ∀ c ∈ t.head?, c = 'e' ∨ c = 'E' := by
  unfold withExponent
  have long : (s.take length).length = length := by rw [List.length_take]; omega
  have dropped (t : List Char) : (s.take length ++ (t ++ rest)).drop length = t ++ rest := by
    rw [List.drop_append_of_le_length (by omega), List.drop_of_length_le (by omega),
      List.nil_append]
  cases found : exponentLength? (s.drop length) with
  | none =>
    refine ⟨[], rfl, within, rfl, ?_, nofun⟩
    rw [dropped, List.nil_append, ends.exponentLength?, Option.getD_none]
  | some k =>
    obtain ⟨fits, same⟩ := exponentLength?_take_append ends found
    rw [List.length_drop] at fits
    refine ⟨(s.drop length).take k, ?_, ?_, ?_, ?_, ?_⟩
    · rw [List.length_take, List.length_drop, Option.getD_some]
      omega
    · rw [Option.getD_some]
      omega
    · rw [Option.getD_some, List.take_add, List.append_assoc]
    · rw [dropped, same]
    · intro c head
      obtain ⟨c', head', mark⟩ := head?_of_exponentLength? found
      cases k with
      | zero => cases head
      | succ k =>
        rw [List.head?_take] at head
        simp only [Nat.succ_ne_zero, if_false, head', Option.mem_def, Option.some.injEq] at head
        rwa [← head]

end Exponents

section Decimals

theorem endsDecimal_exponent (ends : EndsNumber rest) {t : List Char}
    (mark : ∀ c ∈ t.head?, c = 'e' ∨ c = 'E') : EndsDigits Char.isDigit (t ++ rest) := by
  cases head : t.head? with
  | none =>
    rw [List.head?_eq_none_iff.mp head]
    exact ends.endsDecimal
  | some c =>
    rcases mark c head with rfl | rfl
    · exact endsDigits_append head (by decide) (by decide) rest
    · exact endsDigits_append head (by decide) (by decide) rest

theorem head?_exponent_ne (ends : EndsNumber rest) {t : List Char}
    (mark : ∀ c ∈ t.head?, c = 'e' ∨ c = 'E') :
    (t ++ rest).head? ≠ some 'n' ∧ (t ++ rest).head? ≠ some '.' := by
  cases t with
  | nil => exact ⟨ends.head?_ne (by decide), fun head => (ends '.' head).2 rfl⟩
  | cons c t =>
    rcases mark c rfl with rfl | rfl
    · exact ⟨by simp, by simp⟩
    · exact ⟨by simp, by simp⟩

theorem decimalNumberLength?_fraction (tail : List Char) :
    decimalNumberLength? ('.' :: tail) =
      (digitsLength? Char.isDigit tail).map fun n => withExponent (n + 1) ('.' :: tail) :=
  rfl

theorem decimalNumberLength?_whole {digits t : List Char}
    (found : digitsLength? Char.isDigit (digits ++ t) = some digits.length) :
    decimalNumberLength? (digits ++ t) =
      if t.head? == some 'n' then some (digits.length + 1)
      else if !isWholePart digits then some digits.length
      else if t.head? == some '.' then
        some (withExponent (digits.length + 1 + (digitsLength? Char.isDigit t.tail).getD 0)
          (digits ++ t))
      else some (withExponent digits.length (digits ++ t)) := by
  rw [decimalNumberLength?, found]
  dsimp only
  rw [List.drop_left, List.take_left]

theorem fraction_take_append {u t : List Char} (ends : EndsDigits Char.isDigit t) :
    (digitsLength? Char.isDigit u).getD 0 ≤ u.length ∧
      (digitsLength? Char.isDigit (u.take ((digitsLength? Char.isDigit u).getD 0) ++ t)).getD 0 =
        (digitsLength? Char.isDigit u).getD 0 := by
  cases found : digitsLength? Char.isDigit u with
  | none =>
    rw [Option.getD_none, List.take_zero, List.nil_append, ends.digitsLength?]
    exact ⟨Nat.zero_le _, rfl⟩
  | some k =>
    obtain ⟨within, -, same⟩ := digitsLength?_take_append (by decide) ends found
    rw [Option.getD_some, same]
    exact ⟨within, rfl⟩

theorem decimalNumberLength?_point_take_append (ends : EndsNumber rest) {digits u : List Char}
    (whole : digitsLength? Char.isDigit (digits ++ '.' :: u) = some digits.length)
    (part : isWholePart digits = true)
    (found : withExponent (digits.length + 1 + (digitsLength? Char.isDigit u).getD 0)
      (digits ++ '.' :: u) = n) :
    n ≤ (digits ++ '.' :: u).length ∧ digits.length ≤ n ∧
      decimalNumberLength? ((digits ++ '.' :: u).take n ++ rest) = some n := by
  generalize length : digits.length + 1 + (digitsLength? Char.isDigit u).getD 0 = k at found
  have long : k ≤ (digits ++ '.' :: u).length := by
    have := (fraction_take_append (u := u) EndsNumber.nil.endsDecimal).1
    rw [List.length_append, List.length_cons]
    omega
  obtain ⟨e, count, within, text, same, mark⟩ := withExponent_take_append ends long
  obtain ⟨-, fraction⟩ := fraction_take_append (u := u) (endsDecimal_exponent ends mark)
  have cut : (digits ++ '.' :: u).take k =
      digits ++ '.' :: u.take ((digitsLength? Char.isDigit u).getD 0) := by
    rw [← length, Nat.add_assoc, List.take_length_add_append, Nat.add_comm 1, List.take_succ_cons]
  have dot : EndsDigits Char.isDigit
      (['.'] ++ (u.take ((digitsLength? Char.isDigit u).getD 0) ++ (e ++ rest))) :=
    endsDigits_append rfl (by decide) (by decide) _
  rw [found] at text same
  refine ⟨by rwa [← found], by omega, ?_⟩
  rw [cut, List.append_assoc] at text same
  rw [text, List.cons_append]
  rw [List.cons_append] at same
  refine (decimalNumberLength?_whole (digitsLength?_append (by decide) whole dot)).trans ?_
  rw [if_neg (by simp), if_neg (by simp [part]), if_pos (by simp)]
  simp only [List.singleton_append, List.tail_cons, fraction, length, same]

theorem decimalNumberLength?_whole_take_append (ends : EndsNumber rest) {digits t : List Char}
    (whole : digitsLength? Char.isDigit (digits ++ t) = some digits.length)
    (found : decimalNumberLength? (digits ++ t) = some n) :
    n ≤ (digits ++ t).length ∧ digits.length ≤ n ∧
      decimalNumberLength? ((digits ++ t).take n ++ rest) = some n := by
  have kept {t' : List Char} (ends : EndsDigits Char.isDigit t') :
      digitsLength? Char.isDigit (digits ++ t') = some digits.length :=
    digitsLength?_append (by decide) whole ends
  rw [decimalNumberLength?_whole whole] at found
  split at found
  next big =>
    obtain ⟨t, rfl⟩ := List.head?_eq_some_iff.mp (beq_iff_eq.mp big)
    cases found
    have mark : EndsDigits Char.isDigit (['n'] ++ rest) :=
      endsDigits_append rfl (by decide) (by decide) rest
    refine ⟨by simp, by omega, ?_⟩
    rw [List.take_length_add_append, List.append_assoc]
    exact decimalNumberLength?_whole (kept mark)
  next small =>
  split at found
  next odd =>
    cases found
    refine ⟨by simp, Nat.le_refl _, ?_⟩
    rw [List.take_left, decimalNumberLength?_whole (kept ends.endsDecimal),
      if_neg (by simpa using ends.head?_ne (by decide)), if_pos odd]
  next even =>
  split at found
  next point =>
    obtain ⟨u, rfl⟩ := List.head?_eq_some_iff.mp (beq_iff_eq.mp point)
    rw [List.tail_cons, Option.some.injEq] at found
    exact decimalNumberLength?_point_take_append ends whole (by simpa using even) found
  next plain =>
    rw [Option.some.injEq] at found
    have fits : digits.length ≤ (digits ++ t).length := by simp
    obtain ⟨e, count, within, text, same, mark⟩ := withExponent_take_append ends fits
    obtain ⟨notBig, notPoint⟩ := head?_exponent_ne ends mark
    rw [List.take_left, found] at text same
    refine ⟨by rwa [← found], by omega, ?_⟩
    rw [text, decimalNumberLength?_whole (kept (endsDecimal_exponent ends mark)),
      if_neg (by simpa using notBig), if_neg even, if_neg (by simpa using notPoint), same]

theorem decimalNumberLength?_take_append (ends : EndsNumber rest)
    (found : decimalNumberLength? s = some n) :
    n ≤ s.length ∧ 0 < n ∧ decimalNumberLength? (s.take n ++ rest) = some n := by
  cases whole : digitsLength? Char.isDigit s with
  | some k =>
    obtain ⟨within, pos, -⟩ :=
      digitsLength?_take_append (by decide) EndsNumber.nil.endsDecimal whole
    obtain ⟨digits, t, rfl, rfl⟩ : ∃ digits t, s = digits ++ t ∧ digits.length = k :=
      ⟨s.take k, s.drop k, (List.take_append_drop k s).symm, by rw [List.length_take]; omega⟩
    obtain ⟨fits, least, same⟩ := decimalNumberLength?_whole_take_append ends whole found
    exact ⟨fits, by omega, same⟩
  | none =>
    rw [decimalNumberLength?, whole] at found
    dsimp only at found
    split at found
    next point =>
      obtain ⟨tail, rfl⟩ := List.head?_eq_some_iff.mp (beq_iff_eq.mp point)
      obtain ⟨k, digits, found⟩ := Option.map_eq_some_iff.mp found
      rw [List.tail_cons] at digits
      have long : k + 1 ≤ ('.' :: tail).length :=
        Nat.succ_le_succ (digitsLength?_take_append (by decide) EndsNumber.nil.endsDecimal digits).1
      obtain ⟨e, count, within, text, same, mark⟩ := withExponent_take_append ends long
      obtain ⟨-, -, kept⟩ :=
        digitsLength?_take_append (by decide) (endsDecimal_exponent ends mark) digits
      rw [found, List.take_succ_cons, List.cons_append] at text same
      refine ⟨by rwa [← found], by omega, ?_⟩
      rw [text, decimalNumberLength?_fraction, kept, Option.map_some, same]
    next => cases found

end Decimals

section Radixes

def radixDigits? (mark : Char) : Option (Char → Bool) :=
  if mark == 'x' || mark == 'X' then some isHexDigit
  else if mark == 'b' || mark == 'B' then some fun c => c == '0' || c == '1'
  else if mark == 'o' || mark == 'O' then some isOctalDigit
  else none

theorem radixNumberLength?_eq (mark : Char) (s : List Char) :
    radixNumberLength? ('0' :: mark :: s) = (radixDigits? mark).bind fun digit =>
      (digitsLength? digit s).map fun n =>
        n + 2 + (if (s.drop n).head? == some 'n' then 1 else 0) := by
  rw [radixNumberLength?, radixDigits?]
  cases (mark == 'x' || mark == 'X') <;> cases (mark == 'b' || mark == 'B') <;>
    cases (mark == 'o' || mark == 'O') <;> rfl

-- The digits are no names, and no digit of any kind is an underscore or a mark of a big number.
theorem not_digit_of_radixDigits? {mark : Char} {digit : Char → Bool}
    (found : radixDigits? mark = some digit) :
    (∀ n ∈ namelessPoints, digit (Char.ofNat n) = false) ∧ digit '_' = false ∧
      digit 'n' = false := by
  unfold radixDigits? at found
  split at found
  · cases found
    exact ⟨by decide +kernel, by decide, by decide⟩
  split at found
  · cases found
    exact ⟨by decide +kernel, by decide, by decide⟩
  split at found
  · cases found
    exact ⟨by decide +kernel, by decide, by decide⟩
  · cases found

theorem mem_of_radixDigits? {mark : Char} {digit : Char → Bool}
    (found : radixDigits? mark = some digit) : mark ∈ ['x', 'X', 'b', 'B', 'o', 'O'] := by
  grind [radixDigits?]

theorem radixNumberLength?_eq_some (found : radixNumberLength? s = some n) :
    ∃ mark tail digit k, s = '0' :: mark :: tail ∧ radixDigits? mark = some digit ∧
      digitsLength? digit tail = some k ∧
        k + 2 + (if (tail.drop k).head? == some 'n' then 1 else 0) = n := by
  obtain ⟨mark, tail, rfl⟩ : ∃ mark tail, s = '0' :: mark :: tail := by
    unfold radixNumberLength? at found
    split at found
    next mark tail => exact ⟨mark, tail, rfl⟩
    next => cases found
  rw [radixNumberLength?_eq] at found
  obtain ⟨digit, kind, found⟩ := Option.bind_eq_some_iff.mp found
  obtain ⟨k, digits, found⟩ := Option.map_eq_some_iff.mp found
  exact ⟨mark, tail, digit, k, rfl, kind, digits, found⟩

theorem radixNumberLength?_take_append (ends : EndsNumber rest)
    (found : radixNumberLength? s = some n) :
    n ≤ s.length ∧ 0 < n ∧ radixNumberLength? (s.take n ++ rest) = some n := by
  obtain ⟨mark, tail, digit, k, rfl, kind, digits, found⟩ := radixNumberLength?_eq_some found
  obtain ⟨nameless, underscore, big⟩ := not_digit_of_radixDigits? kind
  split at found
  next suffix =>
    subst found
    obtain ⟨more, after⟩ := List.head?_eq_some_iff.mp (beq_iff_eq.mp suffix)
    have stops : EndsDigits digit (['n'] ++ rest) := endsDigits_append rfl big (by decide) rest
    obtain ⟨within, -, same⟩ := digitsLength?_take_append underscore stops digits
    have taken : tail.take (k + 1) = tail.take k ++ ['n'] := by
      rw [List.take_add, after, List.take_succ_cons, List.take_zero]
    have long : k < tail.length := by
      have size := congrArg List.length after
      rw [List.length_drop, List.length_cons] at size
      omega
    refine ⟨by simp; omega, by omega, ?_⟩
    rw [List.take_succ_cons, List.take_succ_cons, taken, List.cons_append, List.cons_append,
      List.append_assoc, radixNumberLength?_eq, kind, Option.bind_some, same, Option.map_some,
      List.drop_append_of_le_length (by rw [List.length_take]; omega), List.drop_take, Nat.sub_self]
    rfl
  next plain =>
    subst found
    obtain ⟨within, -, same⟩ :=
      digitsLength?_take_append underscore (ends.endsDigits nameless) digits
    refine ⟨by simp; omega, by omega, ?_⟩
    rw [Nat.add_zero, List.take_succ_cons, List.take_succ_cons, List.cons_append, List.cons_append,
      radixNumberLength?_eq, kind, Option.bind_some, same, Option.map_some,
      List.drop_append_of_le_length (by rw [List.length_take]; omega), List.drop_take, Nat.sub_self,
      List.take_zero, List.nil_append, if_neg (by simpa using ends.head?_ne (by decide))]

theorem decimalNumberLength?_mark {mark : Char} {digit : Char → Bool}
    (kind : radixDigits? mark = some digit) (tail : List Char) :
    decimalNumberLength? ('0' :: mark :: tail) = some 1 := by
  have marks := mem_of_radixDigits? kind
  simp only [List.mem_cons, List.not_mem_nil, or_false] at marks
  rcases marks with rfl | rfl | rfl | rfl | rfl | rfl <;> rfl

theorem EndsNumber.radixDigits? (ends : EndsNumber rest) {mark : Char}
    (head : rest.head? = some mark) : radixDigits? mark = none := by
  cases kind : Source.radixDigits? mark with
  | none => rfl
  | some digit =>
    have named : ∀ c ∈ ['x', 'X', 'b', 'B', 'o', 'O'], isNameChar c = true :=
      List.all_eq_true.mp (by decide)
    exact absurd head (ends.head?_ne (named mark (mem_of_radixDigits? kind)))

-- A zero before a mark is a decimal number by itself, so that a decimal one holds no mark.
theorem radixNumberLength?_eq_none (ends : EndsNumber rest)
    (found : decimalNumberLength? s = some n) : radixNumberLength? (s.take n ++ rest) = none := by
  obtain ⟨-, pos, -⟩ := decimalNumberLength?_take_append ends found
  obtain ⟨n, rfl⟩ : ∃ k, n = k + 1 := ⟨n - 1, by omega⟩
  cases radix : radixNumberLength? (s.take (n + 1) ++ rest) with
  | none => rfl
  | some m =>
    obtain ⟨mark, tail, digit, k, text, kind, -⟩ := radixNumberLength?_eq_some radix
    have held {t : List Char} (same : rest = mark :: t) : False := by
      have head : rest.head? = some mark := by rw [same]; rfl
      rw [ends.radixDigits? head] at kind
      cases kind
    rcases s with _ | ⟨c, _ | ⟨d, s⟩⟩
    · cases found
    · rw [List.take_succ_cons, List.take_nil] at text
      exact (held (List.cons.inj text).2).elim
    · cases n with
      | zero => exact (held (List.cons.inj text).2).elim
      | succ n =>
        obtain ⟨rfl, later⟩ := List.cons.inj text
        obtain ⟨rfl, -⟩ := List.cons.inj later
        rw [decimalNumberLength?_mark kind] at found
        cases found

end Radixes

def IsNumber (s : List Char) : Prop :=
  numberLength? s = some s.length

instance (s : List Char) : Decidable (IsNumber s) :=
  inferInstanceAs (Decidable (numberLength? s = some s.length))

theorem numberLength?_take_append (ends : EndsNumber rest) (found : numberLength? s = some n) :
    n ≤ s.length ∧ 0 < n ∧ numberLength? (s.take n ++ rest) = some n := by
  rcases Option.or_eq_some_iff.mp found with radix | ⟨-, decimal⟩
  · obtain ⟨within, pos, same⟩ := radixNumberLength?_take_append ends radix
    exact ⟨within, pos, by rw [numberLength?, same, Option.some_or]⟩
  · obtain ⟨within, pos, same⟩ := decimalNumberLength?_take_append ends decimal
    refine ⟨within, pos, ?_⟩
    rw [numberLength?, radixNumberLength?_eq_none ends decimal, Option.none_or, same]

theorem isNumber_take (found : numberLength? s = some n) : IsNumber (s.take n) := by
  obtain ⟨within, -, same⟩ := numberLength?_take_append .nil found
  rw [List.append_nil] at same
  rw [IsNumber, same, List.length_take, Nat.min_eq_left within]

theorem IsNumber.numberLength?_append (number : IsNumber s) (ends : EndsNumber rest) :
    numberLength? (s ++ rest) = some s.length := by
  have same := (numberLength?_take_append ends number).2.2
  rwa [List.take_length] at same

section Chars

def isNumberChar (c : Char) : Bool :=
  isNameChar c || c == '.' || c == '+' || c == '-'

variable {digit : Char → Bool}

theorem isNumberChar_of_mem_digits (nameless : ∀ n ∈ namelessPoints, digit (Char.ofNat n) = false)
    {c : Char} (member : c ∈ s.take (moreDigits digit s)) : isNumberChar c = true := by
  have named {c : Char} (held : digit c = true) : isNumberChar c = true := by
    simp [isNumberChar, isNameChar_of_accepted nameless held]
  fun_induction moreDigits digit s with
  | case1 => cases member
  | case2 d tail held ih =>
    rw [List.take_succ_cons, List.take_succ_cons, List.mem_cons, List.mem_cons] at member
    rcases member with rfl | rfl | later
    · decide
    · exact named held
    · exact ih later
  | case3 => cases member
  | case4 d tail single held ih =>
    rcases List.mem_cons.mp member with rfl | later
    · exact named held
    · exact ih later
  | case5 => cases member

theorem isNumberChar_of_digitsLength?
    (nameless : ∀ n ∈ namelessPoints, digit (Char.ofNat n) = false)
    (found : digitsLength? digit s = some n) {c : Char} (member : c ∈ s.take n) :
    isNumberChar c = true := by
  rw [digitsLength?.eq_def] at found
  split at found
  next => cases found
  next d tail =>
    split at found
    next held =>
      cases found
      rcases List.mem_cons.mp member with rfl | later
      · simp [isNumberChar, isNameChar_of_accepted nameless held]
      · exact isNumberChar_of_mem_digits nameless later
    next => cases found

theorem isNumberChar_of_decimal (found : digitsLength? Char.isDigit s = some n) {c : Char}
    (member : c ∈ s.take n) : isNumberChar c = true :=
  isNumberChar_of_digitsLength? (by decide +kernel) found member

theorem isNumberChar_of_exponent (found : exponentLength? s = some n) {c : Char}
    (member : c ∈ s.take n) : isNumberChar c = true := by
  rw [exponentLength?.eq_def] at found
  split at found
  next first tail =>
    split at found
    next mark =>
      have marks : isNumberChar first = true := by
        have mark : first = 'e' ∨ first = 'E' := by simpa using mark
        rcases mark with rfl | rfl <;> decide
      split at found
      next sign digits =>
        split at found
        next signed =>
          obtain ⟨m, inner, rfl⟩ := Option.map_eq_some_iff.mp found
          have signs : isNumberChar sign = true := by
            have signed : sign = '+' ∨ sign = '-' := by simpa using signed
            rcases signed with rfl | rfl <;> decide
          rw [List.take_succ_cons, List.take_succ_cons, List.mem_cons, List.mem_cons] at member
          rcases member with rfl | rfl | later
          · exact marks
          · exact signs
          · exact isNumberChar_of_decimal inner later
        next =>
          obtain ⟨m, inner, rfl⟩ := Option.map_eq_some_iff.mp found
          rw [List.take_succ_cons, List.mem_cons] at member
          rcases member with rfl | later
          · exact marks
          · exact isNumberChar_of_decimal inner later
      next => cases found
    next => cases found
  next => cases found

theorem isNumberChar_of_getD {length? : Option Nat}
    (part : ∀ k, length? = some k → ∀ c ∈ s.take k, isNumberChar c = true) :
    ∀ c ∈ s.take (length?.getD 0), isNumberChar c = true := by
  cases length? with
  | none =>
    intro c member
    cases member
  | some k => exact part k rfl

theorem isNumberChar_of_withExponent {length : Nat}
    (digits : ∀ c ∈ s.take length, isNumberChar c = true) {c : Char}
    (member : c ∈ s.take (withExponent length s)) : isNumberChar c = true := by
  rw [withExponent, List.take_add, List.mem_append] at member
  rcases member with front | back
  · exact digits c front
  · exact isNumberChar_of_getD (fun _ found _ => isNumberChar_of_exponent found) c back

theorem isNumberChar_of_decimalNumberLength? (found : decimalNumberLength? s = some n) :
    ∀ c ∈ s.take n, isNumberChar c = true := by
  unfold decimalNumberLength? at found
  split at found
  next =>
    split at found
    next point =>
      obtain ⟨tail, rfl⟩ := List.head?_eq_some_iff.mp (beq_iff_eq.mp point)
      obtain ⟨k, digits, rfl⟩ := Option.map_eq_some_iff.mp found
      refine fun c => isNumberChar_of_withExponent fun c member => ?_
      rcases List.mem_cons.mp member with rfl | later
      · decide
      · exact isNumberChar_of_decimal digits later
    next => cases found
  next k digits =>
    have whole := fun c => @isNumberChar_of_decimal s k digits c
    -- One more character after the digits.
    have further {x : Char} (head : (s.drop k).head? = some x) (held : isNumberChar x = true) :
        ∀ c ∈ s.take (k + 1), isNumberChar c = true := by
      obtain ⟨more, after⟩ := List.head?_eq_some_iff.mp head
      rw [List.take_add, after]
      intro c member
      rcases List.mem_append.mp member with front | back
      · exact whole c front
      · obtain rfl : c = x := by simpa using back
        exact held
    dsimp only at found
    split at found
    next big =>
      cases found
      exact further (beq_iff_eq.mp big) (by decide)
    next =>
    split at found
    next =>
      cases found
      exact whole
    next =>
    split at found
    next point =>
      have point := beq_iff_eq.mp point
      obtain ⟨u, after⟩ := List.head?_eq_some_iff.mp point
      cases found
      refine fun c => isNumberChar_of_withExponent fun c member => ?_
      rw [List.take_add, List.mem_append] at member
      rcases member with front | back
      · exact further point (by decide) c front
      · rw [← List.drop_drop, after, List.drop_succ_cons, List.drop_zero, List.tail_cons] at back
        exact isNumberChar_of_getD (fun _ found _ => isNumberChar_of_decimal found) c back
    next =>
      cases found
      exact fun c => isNumberChar_of_withExponent whole

theorem isNumberChar_of_radixNumberLength? (found : radixNumberLength? s = some n) :
    ∀ c ∈ s.take n, isNumberChar c = true := by
  obtain ⟨mark, tail, digit, k, rfl, kind, digits, rfl⟩ := radixNumberLength?_eq_some found
  have marks : ∀ c ∈ ['x', 'X', 'b', 'B', 'o', 'O'], isNumberChar c = true :=
    List.all_eq_true.mp (by decide)
  obtain ⟨nameless, -, -⟩ := not_digit_of_radixDigits? kind
  intro c member
  rw [Nat.add_right_comm, List.take_succ_cons, List.take_succ_cons, List.mem_cons, List.mem_cons,
    List.take_add, List.mem_append] at member
  rcases member with rfl | rfl | front | back
  · decide
  · exact marks _ (mem_of_radixDigits? kind)
  · exact isNumberChar_of_digitsLength? nameless digits front
  · split at back
    next big =>
      obtain ⟨more, after⟩ := List.head?_eq_some_iff.mp (beq_iff_eq.mp big)
      obtain rfl : c = 'n' := by simpa [after] using back
      decide
    next => cases back

theorem IsNumber.isNumberChar (number : IsNumber s) {c : Char} (member : c ∈ s) :
    isNumberChar c = true := by
  rw [← List.take_length (l := s)] at member
  rcases Option.or_eq_some_iff.mp number with radix | ⟨-, decimal⟩
  · exact isNumberChar_of_radixNumberLength? radix c member
  · exact isNumberChar_of_decimalNumberLength? decimal c member

end Chars

theorem IsNumber.exists_cons (number : IsNumber s) :
    ∃ c tail, s = c :: tail ∧
      (c.isDigit = true ∨ c = '.' ∧ tail.head?.any Char.isDigit = true) := by
  have first {digits : List Char} {k : Nat} (found : digitsLength? Char.isDigit digits = some k) :
      ∃ c tail, digits = c :: tail ∧ c.isDigit = true := by
    rw [digitsLength?.eq_def] at found
    split at found
    next => cases found
    next c tail =>
      split at found
      next held => exact ⟨c, tail, rfl, held⟩
      next => cases found
  rcases Option.or_eq_some_iff.mp number with radix | ⟨-, decimal⟩
  · obtain ⟨mark, tail, -, -, rfl, -⟩ := radixNumberLength?_eq_some radix
    exact ⟨'0', mark :: tail, rfl, .inl (by decide)⟩
  · unfold decimalNumberLength? at decimal
    split at decimal
    next =>
      split at decimal
      next point =>
        obtain ⟨tail, rfl⟩ := List.head?_eq_some_iff.mp (beq_iff_eq.mp point)
        obtain ⟨k, digits, -⟩ := Option.map_eq_some_iff.mp decimal
        obtain ⟨d, more, rfl, digit⟩ := first digits
        exact ⟨'.', d :: more, rfl, .inr ⟨rfl, by simpa using digit⟩⟩
      next => cases decimal
    next k digits =>
      obtain ⟨c, tail, rfl, digit⟩ := first digits
      exact ⟨c, tail, rfl, .inl digit⟩

end Numbers

end Source

end SchemaMigration
