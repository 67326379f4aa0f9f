import SchemaMigration.Proofs.RereadOptions

set_option autoImplicit false

namespace SchemaMigration

namespace Source

section Digits

variable {digit : Char → Bool} {s t : List Char}

inductive Digits (digit : Char → Bool) : List Char → Prop where
  | one {c : Char} (held : digit c = true) : Digits digit [c]
  | next {c : Char} {s : List Char} (held : digit c = true) (more : Digits digit s) :
      Digits digit (c :: s)
  | separated {c : Char} {s : List Char} (held : digit c = true) (more : Digits digit s) :
      Digits digit (c :: '_' :: s)

theorem digits_of_forall {c : Char} (held : ∀ x ∈ c :: s, digit x = true) :
    Digits digit (c :: s) := by
  induction s generalizing c with
  | nil => exact .one (held c (by simp))
  | cons d rest ih =>
    exact .next (held c (by simp)) (ih fun x member => held x (List.mem_cons_of_mem c member))

theorem Digits.exists_cons (digits : Digits digit s) :
    ∃ c rest, s = c :: rest ∧ digit c = true := by
  cases digits with
  | one held | next held | separated held => exact ⟨_, _, rfl, held⟩

theorem Digits.moreDigits (digits : Digits digit s) (underscore : digit '_' = false)
    (ends : EndsDigits digit t) : moreDigits digit (s ++ t) = s.length := by
  induction digits with
  | one held =>
    rw [List.singleton_append, moreDigits_digit underscore held, ends.moreDigits]
    rfl
  | next held more ih =>
    rw [List.cons_append, moreDigits_digit underscore held, ih, List.length_cons]
  | separated held more ih =>
    obtain ⟨c, rest, rfl, first⟩ := more.exists_cons
    rw [List.cons_append, moreDigits_digit underscore first] at ih
    rw [List.cons_append, List.cons_append, List.cons_append, moreDigits_digit underscore held,
      Source.moreDigits, if_pos first]
    simp only [List.length_cons] at ih ⊢
    omega

theorem Digits.digitsLength? (digits : Digits digit s) (underscore : digit '_' = false)
    (ends : EndsDigits digit t) : digitsLength? digit (s ++ t) = some s.length := by
  have all := digits.moreDigits underscore ends
  obtain ⟨c, rest, rfl, held⟩ := digits.exists_cons
  rw [List.cons_append, moreDigits_digit underscore held] at all
  rw [List.cons_append, Source.digitsLength?, if_pos held, all]

end Digits

section Numbers

variable {s t : List Char}

inductive Exponent : List Char → Prop where
  | none : Exponent []
  | unsigned {mark : Char} {s : List Char} (marks : mark = 'e' ∨ mark = 'E')
      (digits : Digits Char.isDigit s) : Exponent (mark :: s)
  | signed {mark sign : Char} {s : List Char} (marks : mark = 'e' ∨ mark = 'E')
      (signs : sign = '+' ∨ sign = '-') (digits : Digits Char.isDigit s) :
      Exponent (mark :: sign :: s)

-- One zero at most comes before other digits; such a one stands in old code only.
inductive WholePart : List Char → Prop where
  | zero : WholePart ['0']
  | digits {c : Char} {s : List Char} (digits : Digits Char.isDigit (c :: s)) (first : c ≠ '0') :
      WholePart (c :: s)
  | afterZero {c : Char} {s : List Char} (digits : Digits Char.isDigit (c :: s))
      (first : c ≠ '0') : WholePart ('0' :: c :: s)

inductive NumberText : List Char → Prop where
  | whole {s e : List Char} (whole : WholePart s) (exponent : Exponent e) : NumberText (s ++ e)
  | point {s e : List Char} (whole : WholePart s) (exponent : Exponent e) :
      NumberText (s ++ '.' :: e)
  | fraction {s f e : List Char} (whole : WholePart s ∨ s = []) (fraction : Digits Char.isDigit f)
      (exponent : Exponent e) : NumberText (s ++ '.' :: (f ++ e))
  | big {s : List Char} (whole : WholePart s) : NumberText (s ++ ['n'])
  | radix {mark : Char} {digit : Char → Bool} {s big : List Char}
      (kind : radixDigits? mark = some digit) (digits : Digits digit s)
      (suffix : big = [] ∨ big = ['n']) : NumberText ('0' :: mark :: (s ++ big))
  | padded {c : Char} {s : List Char} (digits : ∀ x ∈ c :: s, x.isDigit = true) :
      NumberText ('0' :: c :: s)

theorem Exponent.mark (exponent : Exponent s) : ∀ c ∈ s.head?, c = 'e' ∨ c = 'E' := by
  cases exponent with
  | none => simp
  | unsigned marks | signed marks =>
    rintro c ⟨⟩
    exact marks

theorem Exponent.exponentLength? (exponent : Exponent s) :
    (exponentLength? s).getD 0 = s.length := by
  cases exponent with
  | none => rfl
  | @unsigned mark s marks digits =>
    have read := digits.digitsLength? (by decide) EndsNumber.nil.endsDecimal
    rw [List.append_nil] at read
    obtain ⟨c, rest, rfl, held⟩ := digits.exists_cons
    have plain : (c == '+' || c == '-') = false := by
      cases plus : c == '+' || c == '-' with
      | false => rfl
      | true =>
        rcases Bool.or_eq_true_iff.mp plus with sign | sign <;> simp [beq_iff_eq.mp sign] at held
    simp [Source.exponentLength?, marks, plain, read]
  | @signed mark sign s marks signs digits =>
    have read := digits.digitsLength? (by decide) EndsNumber.nil.endsDecimal
    rw [List.append_nil] at read
    simp [Source.exponentLength?, marks, signs, read]

theorem Exponent.withExponent (exponent : Exponent t) (s : List Char) :
    withExponent s.length (s ++ t) = (s ++ t).length := by
  rw [Source.withExponent, List.drop_left, exponent.exponentLength?, List.length_append]

theorem Exponent.endsDecimal (exponent : Exponent t) : EndsDigits Char.isDigit t := by
  simpa using endsDecimal_exponent EndsNumber.nil exponent.mark

theorem WholePart.digitsLength? (whole : WholePart s) (ends : EndsDigits Char.isDigit t) :
    digitsLength? Char.isDigit (s ++ t) = some s.length := by
  cases whole with
  | zero => exact (Digits.one (by decide)).digitsLength? (by decide) ends
  | digits digits => exact digits.digitsLength? (by decide) ends
  | afterZero digits => exact (Digits.next (by decide) digits).digitsLength? (by decide) ends

theorem between_of_isDigit {c : Char} (digit : c.isDigit = true) (nonzero : c ≠ '0') :
    ('1' ≤ c && c ≤ '9') = true := by
  have other : c.toNat ≠ 48 := fun same => nonzero (Char.toNat_inj.mp same)
  simp only [Char.isDigit, ge_iff_le, Bool.and_eq_true, decide_eq_true_eq, Char.le_def,
    UInt32.le_iff_toNat_le] at digit ⊢
  change c.toNat ≥ 48 ∧ c.toNat ≤ 57 at digit
  change 49 ≤ c.toNat ∧ c.toNat ≤ 57
  omega

theorem WholePart.isWholePart (whole : WholePart s) : isWholePart s = true := by
  cases whole with
  | zero => rfl
  | digits digits first =>
    unfold Source.isWholePart
    split <;> simp_all
  | afterZero digits first =>
    obtain ⟨c, rest, same, digit⟩ := digits.exists_cons
    cases same
    exact between_of_isDigit digit first

theorem decimalNumberLength?_point {f : List Char} (whole : WholePart s)
    (fraction : (digitsLength? Char.isDigit (f ++ t)).getD 0 = f.length) (exponent : Exponent t) :
    decimalNumberLength? (s ++ '.' :: (f ++ t)) = some (s ++ '.' :: (f ++ t)).length := by
  have dot : EndsDigits Char.isDigit ('.' :: (f ++ t)) :=
    endsDigits_append (t := ['.']) rfl (by decide) (by decide) (f ++ t)
  have written : s ++ '.' :: (f ++ t) = (s ++ '.' :: f) ++ t := by simp
  rw [decimalNumberLength?_whole (whole.digitsLength? dot), if_neg (by simp),
    if_neg (by simp [whole.isWholePart]), if_pos (by simp), List.tail_cons, fraction, written,
    ← exponent.withExponent]
  congr 2
  simp only [List.length_append, List.length_cons]
  omega

theorem isNumber_of_decimal (found : decimalNumberLength? s = some s.length) : IsNumber s := by
  have none := radixNumberLength?_eq_none .nil found
  rw [List.take_length, List.append_nil] at none
  rw [IsNumber, numberLength?, none, Option.none_or, found]

theorem isNumber_radix {mark : Char} {digit : Char → Bool} {big : List Char}
    (kind : radixDigits? mark = some digit) (digits : Digits digit s)
    (suffix : big = [] ∨ big = ['n']) : IsNumber ('0' :: mark :: (s ++ big)) := by
  obtain ⟨-, underscore, letter⟩ := not_digit_of_radixDigits? kind
  have ends : EndsDigits digit big := by
    rcases suffix with rfl | rfl
    next => simp [EndsDigits]
    next => simp [EndsDigits, letter]
  have read : radixNumberLength? ('0' :: mark :: (s ++ big)) =
      some ('0' :: mark :: (s ++ big)).length := by
    rw [radixNumberLength?_eq, kind, Option.bind_some, digits.digitsLength? underscore ends,
      Option.map_some, List.drop_left]
    rcases suffix with rfl | rfl <;> simp
  rw [IsNumber, numberLength?, read, Option.some_or]

theorem NumberText.isNumber (number : NumberText s) : IsNumber s := by
  cases number with
  | @whole s e whole exponent =>
    obtain ⟨notBig, notPoint⟩ := head?_exponent_ne EndsNumber.nil exponent.mark
    rw [List.append_nil] at notBig notPoint
    apply isNumber_of_decimal
    rw [decimalNumberLength?_whole (whole.digitsLength? exponent.endsDecimal),
      if_neg (by simpa using notBig), if_neg (by simp [whole.isWholePart]),
      if_neg (by simpa using notPoint), exponent.withExponent]
  | @point s e whole exponent =>
    have none := exponent.endsDecimal.digitsLength?
    exact isNumber_of_decimal (decimalNumberLength?_point (f := []) whole (by simp [none]) exponent)
  | @fraction s f e whole fraction exponent =>
    have read := fraction.digitsLength? (by decide) exponent.endsDecimal
    apply isNumber_of_decimal
    rcases whole with whole | rfl
    next => exact decimalNumberLength?_point whole (by rw [read, Option.getD_some]) exponent
    next =>
      rw [List.nil_append, decimalNumberLength?_fraction, read, Option.map_some]
      exact congrArg some (exponent.withExponent ('.' :: f))
  | @big s whole =>
    have mark : EndsDigits Char.isDigit ['n'] := by simp [EndsDigits]
    apply isNumber_of_decimal
    rw [decimalNumberLength?_whole (whole.digitsLength? mark), if_pos (by simp)]
    simp
  | radix kind digits suffix => exact isNumber_radix kind digits suffix
  | @padded c s digits =>
    have all : Digits Char.isDigit ('0' :: c :: s) :=
      .next (by decide) (digits_of_forall digits)
    have read := all.digitsLength? (by decide) EndsNumber.nil.endsDecimal
    have decimal := decimalNumberLength?_whole read
    have alone := Exponent.none.withExponent ('0' :: c :: s)
    rw [List.append_nil] at decimal alone
    apply isNumber_of_decimal
    rw [decimal, if_neg (by simp)]
    split
    next => rfl
    next => rw [if_neg (by simp), alone]

end Numbers

section Strings

variable {stops s : List Char}

theorem Contents.not_mem_pieces (contents : Contents stops s) {c : Char} (stop : c ∈ stops) :
    [c] ∉ pieces s := by
  induction contents with
  | nil => simp
  | @char d s plain allowed later ih =>
    rw [pieces_char plain, List.mem_cons, not_or]
    refine ⟨?_, ih⟩
    rintro ⟨⟩
    exact allowed stop
  | @escape e s escape later ih =>
    obtain ⟨first, more, rfl, -⟩ := escape.exists_cons
    rw [pieces_escape escape, List.mem_cons, not_or]
    exact ⟨by simp, ih⟩

end Strings

end Source

open Source

namespace Literal

-- A literal that holds no source text. Strings and keys consist of characters and complete escapes,
-- without bare line breaks, and the keys of an object differ also after they are put into quotes.
inductive IsPlain : Literal → Prop where
  | null : IsPlain .null
  | bool (value : Bool) : IsPlain (.bool value)
  | number {text : String} (number : NumberText text.toList) : IsPlain (.number text)
  | string {contents : String} (held : Contents ['\n', '\r'] contents.toList) :
      IsPlain (.string contents)
  | array {items : List Literal} (each : ∀ l ∈ items, IsPlain l) : IsPlain (.array items)
  | object {entries : List (String × Literal)}
      (distinct : (entries.map fun entry => requoted entry.1).Nodup)
      (keys : ∀ entry ∈ entries, Contents ['\n', '\r'] entry.1.toList)
      (values : ∀ entry ∈ entries, IsPlain entry.2) : IsPlain (.object entries)

variable {l : Literal}

theorem IsPlain.lexed (plain : l.IsPlain) : l.Lexed := by
  induction plain with
  | null => exact .null
  | bool value => exact .bool value
  | number number => exact .number number.isNumber
  | string held => exact .string (held.mono (by simp))
  | array _ ih => exact .array ih
  | @object entries distinct keys _ ih =>
    have texts : (entries.map Prod.fst).Nodup := by
      apply List.Nodup.of_map requoted
      rwa [List.map_map]
    exact .object texts keys ih

theorem IsPlain.portable (plain : l.IsPlain) (language : Language) (listed : Bool) :
    l.Portable language listed := by
  induction plain generalizing listed with
  | null => exact .null
  | bool value => exact .bool value
  | number => exact .number _
  | string held => exact .string fun c stop => held.not_mem_pieces stop
  | array _ ih => exact .array fun l member => ih l member true
  | @object entries distinct keys _ ih =>
    refine .object ?_ fun entry member => ih entry member false
    intro a first b second same
    rw [List.inj_on_of_nodup_map distinct first second same]

def keys : Literal → List String
  | .object entries => entries.map Prod.fst
  | _ => []

end Literal

end SchemaMigration
