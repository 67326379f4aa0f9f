import SchemaMigration.Proofs.Tokens

set_option autoImplicit false

namespace SchemaMigration.Source

section Escapes

-- An escape without its backslash, before the character that follows it.
inductive IsEscape : List Char → Option Char → Prop where
  | octal {c : Char} {more : List Char} {next : Option Char} (digit : isOctalDigit c = true)
      (digits : ∀ x ∈ more, isOctalDigit x = true) (short : more.length ≤ 2)
      (ends : more.length < 2 → ∀ x ∈ next, isOctalDigit x = false) : IsEscape (c :: more) next
  | hex {a b : Char} {next : Option Char} (first : isHexDigit a = true)
      (second : isHexDigit b = true) : IsEscape ['x', a, b] next
  | point {digits : List Char} {next : Option Char}
      (length : codePointLength? ('u' :: digits) = some (digits.length + 1)) :
      IsEscape ('u' :: digits) next
  | lineBreak {next : Option Char} : IsEscape ['\r', '\n'] next
  | single {c : Char} {next : Option Char} (plain : isOctalDigit c = false) (notHex : c ≠ 'x')
      (notPoint : c ≠ 'u') (alone : c = '\r' → next ≠ some '\n') : IsEscape [c] next

theorem takeWhile_isOctalDigit {more s : List Char} (digits : ∀ x ∈ more, isOctalDigit x = true)
    (short : more.length ≤ 2) (ends : more.length < 2 → ∀ x ∈ s.head?, isOctalDigit x = false) :
    ((more ++ s).take 2).takeWhile isOctalDigit = more := by
  rcases more with _ | ⟨a, _ | ⟨b, _ | ⟨d, more⟩⟩⟩
  · cases s <;> simp_all
  · cases s <;> simp_all
  · simp_all
  · simp at short

theorem exists_octalDigits (s : List Char) :
    ∃ more rest, s = more ++ rest ∧ (∀ x ∈ more, isOctalDigit x = true) ∧ more.length ≤ 2 ∧
      (more.length < 2 → ∀ x ∈ rest.head?, isOctalDigit x = false) := by
  rcases s with _ | ⟨a, s⟩
  · exact ⟨[], [], rfl, nofun, by simp, nofun⟩
  cases first : isOctalDigit a with
  | false => exact ⟨[], a :: s, rfl, nofun, by simp, by simp [first]⟩
  | true =>
    rcases s with _ | ⟨b, s⟩
    · exact ⟨[a], [], rfl, by simp [first], by simp, by simp⟩
    cases second : isOctalDigit b with
    | false => exact ⟨[a], b :: s, rfl, by simp [first], by simp, by simp [second]⟩
    | true => exact ⟨[a, b], s, rfl, by simp [first, second], by simp, by simp⟩

theorem IsEscape.escapeLength? {e s : List Char} (escape : IsEscape e s.head?) :
    Source.escapeLength? ('\\' :: (e ++ s)) = some (e.length + 1) := by
  generalize head : s.head? = next at escape
  cases escape with
  | @octal c more _ digit digits short ends =>
    rw [← head] at ends
    rw [List.cons_append, Source.escapeLength?, if_pos digit,
      takeWhile_isOctalDigit digits short ends, List.length_cons]
    congr 1
    omega
  | @hex a b _ first second => simp [Source.escapeLength?, first, second, isOctalDigit]
  | @point digits _ length =>
    have same := (codePointLength?_take_append length s).2
    rw [← List.length_cons, List.take_length, List.cons_append, List.length_cons] at same
    simp [Source.escapeLength?, same, isOctalDigit]
  | lineBreak => simp [Source.escapeLength?, isOctalDigit]
  | @single c _ plain notHex notPoint alone =>
    have apart : ¬((c == '\r' && s.head? == some '\n') = true) := by simpa [← head] using alone
    rw [List.cons_append, List.nil_append, Source.escapeLength?]
    simp only [plain, Bool.false_eq_true, if_false, beq_iff_eq, notHex, notPoint, if_neg apart,
      List.length_singleton]

theorem exists_isEscape {rest : List Char} {n : Nat}
    (found : escapeLength? ('\\' :: rest) = some n) :
    ∃ e s, rest = e ++ s ∧ n = e.length + 1 ∧ IsEscape e s.head? := by
  cases rest with
  | nil => cases found
  | cons c tail =>
    rw [escapeLength?] at found
    split at found
    next digit =>
      obtain ⟨more, s, rfl, digits, short, ends⟩ := exists_octalDigits tail
      rw [takeWhile_isOctalDigit digits short ends, Option.some.injEq] at found
      exact ⟨c :: more, s, rfl, by rw [List.length_cons]; omega, .octal digit digits short ends⟩
    next plain =>
    split at found
    next hex =>
      obtain rfl : c = 'x' := by simpa using hex
      rcases tail with _ | ⟨a, _ | ⟨b, s⟩⟩
      · simp at found
      · simp at found
      · obtain ⟨⟨first, second⟩, rfl⟩ : (isHexDigit a = true ∧ isHexDigit b = true) ∧ 4 = n := by
          simpa using found
        exact ⟨['x', a, b], s, rfl, rfl, .hex first second⟩
    next notHex =>
    split at found
    next point =>
      obtain rfl : c = 'u' := by simpa using point
      obtain ⟨m, length, rfl⟩ := Option.map_eq_some_iff.mp found
      obtain ⟨within, same⟩ := codePointLength?_take_append length []
      obtain ⟨m, rfl⟩ : ∃ k, m = k + 1 := by
        cases m with
        | zero => simp [codePointLength?] at same
        | succ k => exact ⟨k, rfl⟩
      have long : (tail.take m).length = m := by
        rw [List.length_take, Nat.min_eq_left (Nat.le_of_succ_le_succ within)]
      rw [List.append_nil, List.take_succ_cons] at same
      exact ⟨'u' :: tail.take m, tail.drop m, by simp, by rw [List.length_cons, long],
        .point (by rw [same, long])⟩
    next notPoint =>
    split at found
    next both =>
      obtain ⟨rfl, head⟩ : c = '\r' ∧ tail.head? = some '\n' := by simpa using both
      obtain ⟨s, rfl⟩ := List.head?_eq_some_iff.mp head
      cases found
      exact ⟨['\r', '\n'], s, rfl, rfl, .lineBreak⟩
    next alone =>
      cases found
      refine ⟨[c], tail, rfl, rfl, .single (by simpa using plain) (by simpa using notHex)
        (by simpa using notPoint) ?_⟩
      simpa using alone

theorem escapeLength?_of_codePointLength? {s : List Char} {n : Nat}
    (found : codePointLength? s = some n) : escapeLength? ('\\' :: s) = some (n + 1) := by
  obtain ⟨digits, rfl, -⟩ := codePointLength?_eq found
  simp [escapeLength?, isOctalDigit, found]

-- What follows an escape matters only if it could go on with it.
theorem IsEscape.next_congr {e : List Char} {next other : Option Char} (escape : IsEscape e next)
    (alike : other = next ∨ ∀ x ∈ other, isOctalDigit x = false ∧ x ≠ '\n') : IsEscape e other := by
  rcases alike with rfl | apart
  · exact escape
  cases escape with
  | octal digit digits short ends =>
    exact .octal digit digits short fun _ x held => (apart x held).1
  | hex first second => exact .hex first second
  | point length => exact .point length
  | lineBreak => exact .lineBreak
  | single plain notHex notPoint alone =>
    refine .single plain notHex notPoint fun _ held => ?_
    exact (apart '\n' held).2 rfl

theorem IsEscape.before {e s rest : List Char} (escape : IsEscape e (s ++ rest).head?) :
    IsEscape e s.head? := by
  refine escape.next_congr ?_
  cases s with
  | nil => exact .inr nofun
  | cons c s => exact .inl rfl

theorem isHexDigit_ne {c : Char} (digit : isHexDigit c = true) : c ≠ '\'' ∧ c ≠ '\\' := by
  constructor <;> rintro rfl <;> exact absurd digit (by decide)

theorem IsEscape.exists_cons {e : List Char} {next : Option Char} (escape : IsEscape e next) :
    ∃ c more, e = c :: more ∧ ∀ x ∈ more, x ≠ '\'' ∧ x ≠ '\\' := by
  cases escape with
  | @octal c more _ digit digits short ends =>
    refine ⟨c, more, rfl, fun x member => ?_⟩
    have octal := digits x member
    constructor <;> rintro rfl <;> exact absurd octal (by decide)
  | @hex a b _ first second =>
    refine ⟨'x', [a, b], rfl, ?_⟩
    rw [List.forall_mem_cons, List.forall_mem_singleton]
    exact ⟨isHexDigit_ne first, isHexDigit_ne second⟩
  | @point digits _ length =>
    refine ⟨'u', digits, rfl, fun x member => ?_⟩
    obtain ⟨_, ⟨⟩, ⟨count, -, hex⟩ | ⟨inner, after, rfl, count, -, hex⟩⟩ :=
      codePointLength?_eq length
    · rw [List.take_of_length_le (by omega)] at hex
      exact isHexDigit_ne (hex x member)
    · obtain rfl : after = [] := by simpa using count
      have kind : x = '\x7b' ∨ x ∈ inner ∨ x = '\x7d' := by simpa using member
      rcases kind with rfl | member | rfl
      · decide
      · exact isHexDigit_ne (hex x member)
      · decide
  | lineBreak => exact ⟨'\r', ['\n'], rfl, List.forall_mem_singleton.mpr (by decide)⟩
  | @single c _ plain notHex notPoint alone => exact ⟨c, [], rfl, nofun⟩

end Escapes

section Contents

inductive Contents (stops : List Char) : List Char → Prop where
  | nil : Contents stops []
  | char {c : Char} {s : List Char} (plain : c ≠ '\\') (allowed : c ∉ stops)
      (later : Contents stops s) : Contents stops (c :: s)
  | escape {e s : List Char} (escape : IsEscape e s.head?) (later : Contents stops s) :
      Contents stops ('\\' :: (e ++ s))

variable {stops s : List Char}

theorem Contents.mono {fewer : List Char} (contents : Contents stops s)
    (fewer_subset : ∀ c ∈ fewer, c ∈ stops) : Contents fewer s := by
  induction contents with
  | nil => exact .nil
  | @char c s plain allowed later ih =>
    exact .char plain (fun stop => allowed (fewer_subset c stop)) ih
  | escape escape later ih => exact .escape escape ih

theorem Contents.cons {x : Char} (contents : Contents stops s) (absent : x ∉ s) :
    Contents (x :: stops) s := by
  induction contents with
  | nil => exact .nil
  | @char c s plain allowed later ih =>
    obtain ⟨differ, absent⟩ := not_or.mp (mt List.mem_cons.mpr absent)
    refine .char plain (fun stop => ?_) (ih absent)
    rcases List.mem_cons.mp stop with rfl | stop
    · exact differ rfl
    · exact allowed stop
  | @escape e s escape later ih =>
    refine .escape escape (ih fun member => absent ?_)
    exact List.mem_cons_of_mem _ (List.mem_append_right e member)

theorem Contents.append {t : List Char} (plain : ∀ c ∈ t, c ≠ '\\' ∧ c ∉ stops)
    (contents : Contents stops s) : Contents stops (t ++ s) := by
  induction t with
  | nil => exact contents
  | cons c t ih =>
    obtain ⟨backslash, allowed⟩ := plain c List.mem_cons_self
    exact .char backslash allowed (ih fun x member => plain x (List.mem_cons_of_mem c member))

theorem contents_of_plain (plain : ∀ c ∈ s, c ≠ '\\' ∧ c ∉ stops) : Contents stops s := by
  have contents := Contents.append plain .nil
  rwa [List.append_nil] at contents

theorem nameFrom_skip (e s : List Char) : nameFrom e.length (e ++ s) = nameFrom 0 s + e.length := by
  induction e with
  | nil => rfl
  | cons c e ih => rw [List.length_cons, List.cons_append, nameFrom, ih, Nat.add_assoc]

theorem contents_of_nameFrom (named : nameFrom 0 s = s.length) : Contents ['\n', '\r'] s := by
  induction size : s.length using Nat.strongRecOn generalizing s with
  | ind size ih =>
    subst size
    cases s with
    | nil => exact .nil
    | cons c rest =>
      rw [nameFrom] at named
      split at named
      next n found =>
        replace named : nameFrom n rest = rest.length := by simpa using named
        obtain ⟨_, _, m, ⟨⟩, ⟨⟩, ⟨accepted, rfl⟩ | ⟨rfl, point⟩⟩ := nameCharLength?_eq found
        · have plain : c ≠ '\\' ∧ c ∉ ['\n', '\r'] := by
            constructor
            · rintro rfl
              exact absurd accepted (by decide)
            · have breaks : ['\n', '\r'].any isNameChar = false := by decide
              intro member
              exact absurd accepted (List.any_eq_false.mp breaks c member)
          exact .char plain.1 plain.2 (ih _ (by simp) named rfl)
        · obtain ⟨e, later, rfl, count, escape⟩ :=
            exists_isEscape (escapeLength?_of_codePointLength? point)
          obtain rfl : n = e.length := by omega
          rw [nameFrom_skip, List.length_append] at named
          refine .escape escape (ih _ ?_ (by omega) rfl)
          rw [List.length_cons, List.length_append]
          omega
      next => simp at named

theorem IsName.contents (name : IsName s) : Contents ['\n', '\r'] s := by
  rw [IsName, nameLength?] at name
  split at name
  next => exact contents_of_nameFrom (by simpa using name)
  next => cases name

def piecesFrom : Nat → List Char → List (List Char)
  | _, [] => []
  | skip + 1, _ :: rest => piecesFrom skip rest
  | 0, c :: rest =>
    if c == '\\' then
      match escapeLength? (c :: rest) with
      | some (n + 1) => (c :: rest.take n) :: piecesFrom n rest
      | _ => [c] :: piecesFrom 0 rest
    else [c] :: piecesFrom 0 rest

def pieces (s : List Char) : List (List Char) :=
  piecesFrom 0 s

theorem piecesFrom_append (e s : List Char) : piecesFrom e.length (e ++ s) = pieces s := by
  induction e with
  | nil => rfl
  | cons c e ih => exact ih

@[simp] theorem pieces_nil : pieces [] = [] := rfl

theorem pieces_char {c : Char} (plain : c ≠ '\\') (s : List Char) :
    pieces (c :: s) = [c] :: pieces s := by
  simp [pieces, piecesFrom, plain]

theorem pieces_escape {e s : List Char} (escape : IsEscape e s.head?) :
    pieces ('\\' :: (e ++ s)) = ('\\' :: e) :: pieces s := by
  rw [pieces, piecesFrom, if_pos (beq_self_eq_true _), escape.escapeLength?]
  dsimp only
  rw [piecesFrom_append, List.take_left]

theorem Contents.of_pieces (contents : Contents [] s) (free : ∀ c ∈ stops, [c] ∉ pieces s) :
    Contents stops s := by
  induction contents with
  | nil => exact .nil
  | @char c s plain allowed later ih =>
    rw [pieces_char plain] at free
    refine .char plain (fun stop => free c stop List.mem_cons_self) (ih fun x stop piece => ?_)
    exact free x stop (List.mem_cons_of_mem _ piece)
  | @escape e s escape later ih =>
    rw [pieces_escape escape] at free
    refine .escape escape (ih fun x stop piece => ?_)
    exact free x stop (List.mem_cons_of_mem _ piece)

end Contents

section Values

def codeUnits (point : Nat) : List Nat :=
  if point < 0x10000 then [point]
  else [0xD800 + (point - 0x10000) / 0x400, 0xDC00 + (point - 0x10000) % 0x400]

def digitValue (c : Char) : Nat :=
  if c.isDigit then c.toNat - '0'.toNat
  else if 'a' ≤ c then c.toNat - 'a'.toNat + 10
  else c.toNat - 'A'.toNat + 10

def numeral (base : Nat) (digits : List Char) : Nat :=
  digits.foldl (fun n c => n * base + digitValue c) 0

-- Up to three digits; with a first digit above three only two of them belong together.
def octalUnits : List Char → List Nat
  | [a, b, c] => if '4' ≤ a then [numeral 8 [a, b], c.toNat] else [numeral 8 [a, b, c]]
  | digits => [numeral 8 digits]

-- What an escape without its backslash stands for. An escaped line break stands for nothing.
def escapeUnits : List Char → List Nat
  | [] => []
  | c :: rest =>
    if isOctalDigit c then octalUnits (c :: rest)
    else if c == 'x' then [numeral 16 rest]
    else if c == 'u' then codeUnits (numeral 16 (rest.filter isHexDigit))
    else if ['\n', '\r', '\u2028', '\u2029'].contains c then []
    else match c with
      | 'b' => [8]
      | 't' => [9]
      | 'n' => [10]
      | 'v' => [11]
      | 'f' => [12]
      | 'r' => [13]
      | _ => codeUnits c.toNat

def pieceUnits : List Char → List Nat
  | '\\' :: e => escapeUnits e
  | s => s.flatMap (codeUnits ·.toNat)

def stringValue (contents : List Char) : List Nat :=
  (pieces contents).flatMap pieceUnits

theorem stringValue_char {c : Char} (plain : c ≠ '\\') (s : List Char) :
    stringValue (c :: s) = codeUnits c.toNat ++ stringValue s := by
  simp [stringValue, pieces_char plain, pieceUnits, plain]

theorem stringValue_escape {e s : List Char} (escape : IsEscape e s.head?) :
    stringValue ('\\' :: (e ++ s)) = escapeUnits e ++ stringValue s := by
  simp [stringValue, pieces_escape escape, pieceUnits]

end Values

section Quotes

open Text

theorem escapeQuotes_cons {c : Char} (quote : c ≠ '\'') (backslash : c ≠ '\\') (s : List Char) :
    escapeQuotes false (c :: s) = c :: escapeQuotes false s := by
  simp [escapeQuotes, quote, beq_false_of_ne backslash]

theorem escapeQuotes_append {t : List Char} (plain : ∀ x ∈ t, x ≠ '\'' ∧ x ≠ '\\')
    (s : List Char) : escapeQuotes false (t ++ s) = t ++ escapeQuotes false s := by
  induction t with
  | nil => rfl
  | cons c t ih =>
    obtain ⟨quote, backslash⟩ := plain c List.mem_cons_self
    have later := ih fun x member => plain x (List.mem_cons_of_mem c member)
    rw [List.cons_append, escapeQuotes_cons quote backslash, later, List.cons_append]

theorem escapeQuotes_escape {e s : List Char} {next : Option Char} (escape : IsEscape e next) :
    escapeQuotes false ('\\' :: (e ++ s)) = '\\' :: (e ++ escapeQuotes false s) := by
  obtain ⟨c, more, rfl, plain⟩ := escape.exists_cons
  simp [escapeQuotes, escapeQuotes_append plain]

theorem head?_escapeQuotes (s : List Char) :
    (escapeQuotes false s).head? = s.head? ∨ (escapeQuotes false s).head? = some '\\' := by
  cases s with
  | nil => exact .inl rfl
  | cons c s =>
    by_cases quote : c = '\''
    · simp [escapeQuotes, quote]
    · simp [escapeQuotes, quote]

theorem IsEscape.escapeQuotes {e s : List Char} (escape : IsEscape e s.head?) :
    IsEscape e (Text.escapeQuotes false s).head? := by
  refine escape.next_congr ((head?_escapeQuotes s).imp id fun head => ?_)
  rw [head]
  rintro x ⟨⟩
  decide

theorem isEscape_quote (next : Option Char) : IsEscape ['\''] next :=
  .single (by decide) (by decide) (by decide) nofun

variable {stops s : List Char}

theorem Contents.escapeQuotes (contents : Contents stops s) :
    Contents ('\'' :: stops) (Text.escapeQuotes false s) ∧
      stringValue (Text.escapeQuotes false s) = stringValue s := by
  induction contents with
  | nil => exact ⟨.nil, rfl⟩
  | @char c s plain allowed later ih =>
    obtain ⟨contents, value⟩ := ih
    by_cases quote : c = '\''
    · subst quote
      have escaped : Text.escapeQuotes false ('\'' :: s) =
          '\\' :: (['\''] ++ Text.escapeQuotes false s) := by simp [Text.escapeQuotes]
      rw [escaped]
      refine ⟨.escape (isEscape_quote _) contents, ?_⟩
      rw [stringValue_escape (isEscape_quote _), stringValue_char plain, value]
      rfl
    · rw [escapeQuotes_cons quote plain, stringValue_char plain, stringValue_char plain, value]
      exact ⟨.char plain (by simp [quote, allowed]) contents, rfl⟩
  | @escape e s escape later ih =>
    obtain ⟨contents, value⟩ := ih
    rw [escapeQuotes_escape escape, stringValue_escape escape,
      stringValue_escape escape.escapeQuotes, value]
    exact ⟨.escape escape.escapeQuotes contents, rfl⟩

theorem Contents.exists_quoteChars {s : List Char} (contents : Contents stops s) :
    ∃ q, (q = '\'' ∨ q = '"') ∧ quoteChars s = q :: (unquoteChars (quoteChars s) ++ [q]) ∧
      Contents (q :: stops) (unquoteChars (quoteChars s)) ∧
        stringValue (unquoteChars (quoteChars s)) = stringValue s := by
  unfold quoteChars
  split
  next absent =>
    rw [unquoteChars_quoted '\'' s (by decide)]
    exact ⟨'\'', .inl rfl, rfl, contents.cons (by simpa using absent), rfl⟩
  next =>
    split
    next absent =>
      rw [unquoteChars_quoted '"' s (by decide)]
      exact ⟨'"', .inr rfl, rfl, contents.cons (by simpa using absent), rfl⟩
    next =>
      obtain ⟨escaped, value⟩ := contents.escapeQuotes
      rw [unquoteChars_quoted '\'' _ (by decide)]
      exact ⟨'\'', .inl rfl, rfl, escaped, value⟩

theorem stringFrom?_skip (q : Char) (e s : List Char) :
    stringFrom? q e.length (e ++ s) = (stringFrom? q 0 s).map (· + e.length) := by
  induction e with
  | nil => simp
  | cons c e ih =>
    rw [List.length_cons, List.cons_append, stringFrom?, ih, Option.map_map]
    rfl

theorem Contents.stringFrom? {q : Char} (quote : q = '\'' ∨ q = '"') {s : List Char}
    (contents : Contents [q, '\n', '\r'] s) (after : List Char) :
    Source.stringFrom? q 0 (s ++ q :: after) = some (s.length + 1) := by
  induction contents with
  | nil => simp [Source.stringFrom?]
  | @char c s plain allowed later ih =>
    obtain ⟨goesOn, line, feed⟩ : c ≠ q ∧ c ≠ '\n' ∧ c ≠ '\r' := by simpa using allowed
    rw [List.cons_append, Source.stringFrom?]
    simp [goesOn, plain, line, feed, ih]
  | @escape e s escape later ih =>
    have goesOn : ('\\' == q) = false := by rcases quote with rfl | rfl <;> rfl
    have same : IsEscape e (s ++ q :: after).head? := by
      refine escape.next_congr ?_
      cases s with
      | nil =>
        refine .inr ?_
        rintro x ⟨⟩
        rcases quote with rfl | rfl <;> decide
      | cons c s => exact .inl rfl
    have length := same.escapeLength?
    rw [List.cons_append, List.append_assoc, Source.stringFrom?, goesOn, length]
    change Option.map _ (Source.stringFrom? q e.length (e ++ (s ++ q :: after))) = _
    rw [stringFrom?_skip, ih]
    simp
    omega

theorem Contents.isString {q : Char} (quote : q = '\'' ∨ q = '"') {s : List Char}
    (contents : Contents [q, '\n', '\r'] s) : IsString (q :: (s ++ [q])) := by
  have kind : (q == '\'' || q == '"') = true := by rcases quote with rfl | rfl <;> rfl
  rw [IsString, stringLength?, if_pos kind, contents.stringFrom? quote []]
  simp

theorem exists_contents {q : Char} {s : List Char} {n : Nat} (found : stringFrom? q 0 s = some n) :
    ∃ body after, s = body ++ q :: after ∧ n = body.length + 1 ∧
      Contents [q, '\n', '\r'] body := by
  induction size : s.length using Nat.strongRecOn generalizing s n with
  | ind size ih =>
    subst size
    cases s with
    | nil => cases found
    | cons c rest =>
      rw [stringFrom?] at found
      split at found
      next closes =>
        obtain rfl : c = q := by simpa using closes
        cases found
        exact ⟨[], rest, rfl, rfl, .nil⟩
      next goesOn =>
      have differ : c ≠ q := by simpa using goesOn
      split at found
      next backslash =>
        obtain rfl : c = '\\' := by simpa using backslash
        split at found
        next k length =>
          obtain ⟨e, later, rfl, count, escape⟩ := exists_isEscape length
          obtain rfl : k = e.length := by omega
          rw [stringFrom?_skip, Option.map_map] at found
          obtain ⟨m, inner, rfl⟩ := Option.map_eq_some_iff.mp found
          have shorter : later.length < ('\\' :: (e ++ later)).length := by
            rw [List.length_cons, List.length_append]
            omega
          obtain ⟨body, after, rfl, rfl, contents⟩ := ih _ shorter inner rfl
          refine ⟨'\\' :: (e ++ body), after, by simp, ?_, .escape escape.before contents⟩
          simp only [Function.comp_apply, List.length_cons, List.length_append]
          omega
        next => cases found
      next plain =>
      split at found
      next => cases found
      next unbroken =>
        obtain ⟨line, feed⟩ : c ≠ '\n' ∧ c ≠ '\r' := by simpa using unbroken
        obtain ⟨m, inner, rfl⟩ := Option.map_eq_some_iff.mp found
        obtain ⟨body, after, rfl, rfl, contents⟩ := ih _ (by simp) inner rfl
        exact ⟨c :: body, after, rfl, rfl, .char (by simpa using plain)
          (by simp [differ, line, feed]) contents⟩

theorem IsString.exists_contents {s : List Char} (string : IsString s) :
    ∃ q body, (q = '\'' ∨ q = '"') ∧ s = q :: (body ++ [q]) ∧ Contents [q, '\n', '\r'] body := by
  rw [IsString, stringLength?.eq_def] at string
  split at string
  next => cases string
  next q rest =>
    split at string
    next quote =>
      obtain ⟨n, inner, count⟩ := Option.map_eq_some_iff.mp string
      obtain ⟨body, after, rfl, rfl, contents⟩ := Source.exists_contents inner
      obtain rfl : after = [] := by simpa using count
      exact ⟨q, body, by simpa using quote, rfl, contents⟩
    next => cases string

theorem IsString.stringLength?_append {s : List Char} (string : IsString s) (rest : List Char) :
    stringLength? (s ++ rest) = some s.length := by
  obtain ⟨q, body, quote, rfl, contents⟩ := string.exists_contents
  have kind : (q == '\'' || q == '"') = true := by rcases quote with rfl | rfl <;> rfl
  have inner := contents.stringFrom? quote rest
  simp [stringLength?, kind, inner]

theorem isString_take {s : List Char} {n : Nat} (found : stringLength? s = some n) :
    IsString (s.take n) := by
  rw [stringLength?.eq_def] at found
  split at found
  next => cases found
  next q rest =>
    split at found
    next quote =>
      obtain ⟨m, inner, rfl⟩ := Option.map_eq_some_iff.mp found
      obtain ⟨body, after, rfl, rfl, contents⟩ := Source.exists_contents inner
      have text : (q :: (body ++ q :: after)).take (body.length + 1 + 1) = q :: (body ++ [q]) := by
        rw [List.take_succ_cons, List.take_length_add_append]
        rfl
      rw [text]
      exact contents.isString (by simpa using quote)
    next => cases found

end Quotes

end SchemaMigration.Source
