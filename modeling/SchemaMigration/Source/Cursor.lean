import SchemaMigration.Source.Span
import SchemaMigration.Source.Token

set_option autoImplicit false

namespace SchemaMigration.Source

structure Cursor where
  rest : List Char
  offset : Nat

namespace Cursor

def skip : Nat → Cursor → Cursor
  | 0, c => c
  | _ + 1, ⟨[], offset⟩ => ⟨[], offset⟩
  | n + 1, ⟨c :: rest, offset⟩ => skip n ⟨rest, offset + c.utf8Size⟩

theorem skip_append (s t : List Char) (offset : Nat) :
    skip s.length ⟨s ++ t, offset⟩ = ⟨t, offset + Text.byteLength s⟩ := by
  induction s generalizing offset with
  | nil => simp [skip]
  | cons c s ih => simp [skip, ih, Nat.add_assoc]

instance : LE Cursor where
  le c d := ∃ s, c.rest = s ++ d.rest ∧ d.offset = c.offset + Text.byteLength s

protected theorem le_refl (c : Cursor) : c ≤ c :=
  ⟨[], rfl, rfl⟩

protected theorem le_trans {c d e : Cursor} (first : c ≤ d) (second : d ≤ e) : c ≤ e := by
  obtain ⟨s, rest, offset⟩ := first
  obtain ⟨t, rest', offset'⟩ := second
  refine ⟨s ++ t, by rw [rest, rest', List.append_assoc], ?_⟩
  rw [offset', offset, Text.byteLength_append, Nat.add_assoc]

theorem le_skip (n : Nat) (c : Cursor) : c ≤ c.skip n := by
  induction n generalizing c with
  | zero => exact c.le_refl
  | succ n ih =>
    obtain ⟨_ | ⟨first, rest⟩, offset⟩ := c
    · exact Cursor.le_refl _
    · exact Cursor.le_trans ⟨[first], rfl, by simp⟩ (ih ⟨rest, offset + first.utf8Size⟩)

def lexemeTo (start stop : Cursor) : Lexeme where
  span := ⟨start.offset, stop.offset⟩
  text :=
    match Text.splitBytes? (stop.offset - start.offset) start.rest with
    | some (text, _) => String.ofList text
    | none => ""

def ahead (c : Cursor) : List Char :=
  c.rest.drop (triviaLength c.rest)

def word (c : Cursor) : String :=
  let s := c.ahead
  match nameLength? s with
  | some n => String.ofList (s.take n)
  | none => ""

end Cursor

structure Parser (α : Type) where
  run : Cursor → Option (α × Cursor)
  forward {c d : Cursor} {a : α} : run c = some (a, d) → c ≤ d

namespace Parser

instance : Monad Parser where
  pure a :=
    { run c := some (a, c)
      forward := by
        rintro c d b ⟨⟩
        exact c.le_refl }
  bind p next :=
    { run c :=
        match p.run c with
        | some (a, d) => (next a).run d
        | none => none
      forward := by
        intro c e b done
        split at done
        next a d read => exact Cursor.le_trans (p.forward read) ((next a).forward done)
        next => cases done }

instance : Alternative Parser where
  failure := { run _ := none, forward := nofun }
  orElse p other :=
    { run c :=
        match p.run c with
        | some found => some found
        | none => (other ()).run c
      forward := by
        intro c d a done
        split at done
        next found read =>
          cases done
          exact p.forward read
        next => exact (other ()).forward done }

theorem run_bind {α β : Type} (p : Parser α) (next : α → Parser β) (c : Cursor) :
    (p >>= next).run c = (p.run c).bind fun read => (next read.1).run read.2 := by
  change (match p.run c with | some (a, d) => (next a).run d | none => none) = _
  cases p.run c <;> rfl

theorem run_orElse {α : Type} (p other : Parser α) (c : Cursor) :
    (p <|> other).run c = (p.run c).or (other.run c) := by
  change (match p.run c with | some found => some found | none => other.run c) = _
  cases p.run c <;> rfl

def here : Parser Cursor where
  run c := some (c, c)
  forward := by
    rintro c d a ⟨⟩
    exact c.le_refl

def skip (n : Nat) : Parser Unit where
  run c := some ((), c.skip n)
  forward := by
    rintro c d a ⟨⟩
    exact c.le_skip n

def lookahead {α : Type} (p : Parser α) : Parser (Option α) where
  run c := some ((p.run c).map Prod.fst, c)
  forward := by
    rintro c d a ⟨⟩
    exact c.le_refl

def trivia : Parser Unit := do
  skip (triviaLength (← here).rest)

def spaces : Parser Unit := do
  skip ((← here).rest.takeWhile isSpace).length

def ahead : Parser (List Char) := do
  return (← here).ahead

def token (length? : List Char → Option Nat) : Parser Lexeme := do
  trivia
  let start ← here
  match length? start.rest with
  | some n =>
    skip n
    return ⟨⟨start.offset, (← here).offset⟩, String.ofList (start.rest.take n)⟩
  | none => failure

def located {α : Type} (p : Parser α) : Parser (α × Lexeme) := do
  trivia
  let start ← here
  let value ← p
  return (value, start.lexemeTo (← here))

def extent {α : Type} (p : Parser α) : Parser Lexeme := do
  return (← located p).2

def lookingAt (text : String) : Parser Bool := do
  return text.toList.isPrefixOf (← ahead)

def symbol (text : String) : Parser Unit := do
  guard (← lookingAt text)
  trivia
  skip text.length

def nextOperator : Parser String := do
  return operatorAt (← ahead)

def operator (text : String) : Parser Unit := do
  guard ((← nextOperator) == text)
  trivia
  skip text.length

def nextWord : Parser String := do
  return (← here).word

def word : Parser Lexeme :=
  token nameLength?

def keyword (text : String) : Parser Unit := do
  guard ((← nextWord) == text)
  discard word

def comment : Parser Lexeme := do
  spaces
  let start ← here
  match commentLength? start.rest with
  | some n =>
    skip n
    return start.lexemeTo (← here)
  | none => failure

def optionally {α : Type} (p : Parser α) : Parser (Option α) :=
  (some <$> p) <|> pure none

def follows {α : Type} (p : Parser α) : Parser Bool := do
  return (← lookahead p).isSome

def repeatedly {α : Type} (bound : Nat) (step : Parser (Option α)) : Parser (List α) :=
  match bound with
  | 0 => failure
  | bound + 1 => do
    match ← step with
    | none => return []
    | some value => return value :: (← repeatedly bound step)

def growing {α : Type} (bound : Nat) (step : α → Parser (Option α)) (value : α) : Parser α :=
  match bound with
  | 0 => failure
  | bound + 1 => do
    match ← step value with
    | none => return value
    | some next => growing bound step next

def many {α : Type} (bound : Nat) (p : Parser α) : Parser (List α) :=
  repeatedly bound (optionally p)

end Parser

end SchemaMigration.Source
