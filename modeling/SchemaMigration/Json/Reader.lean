import SchemaMigration.Json.Basic

set_option autoImplicit false

namespace SchemaMigration.Json

def isBlank (c : Char) : Bool :=
  c == ' ' || c == '\t' || c == '\n' || c == '\r'

def skipBlanks (s : List Char) : List Char :=
  s.dropWhile isBlank

def hexDigit? (c : Char) : Option Nat :=
  if '0' ≤ c ∧ c ≤ '9' then some (c.toNat - 48)
  else if 'a' ≤ c ∧ c ≤ 'f' then some (c.toNat - 87)
  else if 'A' ≤ c ∧ c ≤ 'F' then some (c.toNat - 55)
  else none

def codeUnit? (a b c d : Char) : Option Nat := do
  return (((← hexDigit? a) * 16 + (← hexDigit? b)) * 16 + (← hexDigit? c)) * 16 + (← hexDigit? d)

inductive Piece where
  | char (c : Char)
  | unit (code : Nat)

def shortEscape? : Char → Option Char
  | '"' => some '"'
  | '\\' => some '\\'
  | '/' => some '/'
  | 'b' => some '\x08'
  | 'f' => some '\x0c'
  | 'n' => some '\n'
  | 'r' => some '\r'
  | 't' => some '\t'
  | _ => none

def readPieces : List Char → Option (List Piece × List Char)
  | [] => none
  | '"' :: rest => some ([], rest)
  | '\\' :: 'u' :: a :: b :: c :: d :: rest => do
    let code ← codeUnit? a b c d
    let (pieces, after) ← readPieces rest
    return (.unit code :: pieces, after)
  | '\\' :: e :: rest => do
    let c ← shortEscape? e
    let (pieces, after) ← readPieces rest
    return (.char c :: pieces, after)
  | c :: rest =>
    if c < ' ' || c == '\\' then none
    else do
      let (pieces, after) ← readPieces rest
      return (.char c :: pieces, after)

def isHighSurrogate (code : Nat) : Bool := 0xD800 ≤ code && code < 0xDC00

def isLowSurrogate (code : Nat) : Bool := 0xDC00 ≤ code && code < 0xE000

def joinPieces? : List Piece → Option (List Char)
  | [] => some []
  | .char c :: rest => (joinPieces? rest).map (c :: ·)
  | .unit code :: rest =>
    if isLowSurrogate code then none
    else if isHighSurrogate code then
      match rest with
      | .unit low :: rest =>
        if isLowSurrogate low then
          let c := Char.ofNat (0x10000 + (code - 0xD800) * 0x400 + (low - 0xDC00))
          (joinPieces? rest).map (c :: ·)
        else none
      | _ => none
    else (joinPieces? rest).map (Char.ofNat code :: ·)

def readString (s : List Char) : Option (Json × List Char) := do
  let (pieces, after) ← readPieces s
  match joinPieces? pieces with
  | some contents => return (.string (String.ofList contents), after)
  -- No fault yet: such a string may stand where nothing reads it.
  | none => return (.illegible, after)

def digitCount (s : List Char) : Nat :=
  (s.takeWhile Char.isDigit).length

def wholeLength? : List Char → Option Nat
  | '0' :: _ => some 1
  | s => if 0 < digitCount s then some (digitCount s) else none

def fractionLength? : List Char → Option Nat
  | '.' :: rest => if 0 < digitCount rest then some (digitCount rest + 1) else none
  | _ => some 0

def exponentLength? : List Char → Option Nat
  | [] => some 0
  | c :: rest =>
    if c == 'e' || c == 'E' then
      let sign := if rest.head?.any fun c => c == '+' || c == '-' then 1 else 0
      let digits := digitCount (rest.drop sign)
      if 0 < digits then some (1 + sign + digits) else none
    else some 0

def numberLength? (s : List Char) : Option Nat := do
  let sign := if s.head? == some '-' then 1 else 0
  let whole ← wholeLength? (s.drop sign)
  let fraction ← fractionLength? (s.drop (sign + whole))
  let exponent ← exponentLength? (s.drop (sign + whole + fraction))
  return sign + whole + fraction + exponent

def readNumber (s : List Char) : Option (Json × List Char) := do
  let n ← numberLength? s
  return (.number (String.ofList (s.take n)), s.drop n)

def readWord (word : String) (value : Json) (s : List Char) : Option (Json × List Char) := do
  let after ← word.toList.isPrefixOf? s
  return (value, after)

mutual

def readValue : Nat → List Char → Option (Json × List Char)
  | 0, _ => none
  | fuel + 1, s =>
    match skipBlanks s with
    | [] => none
    | '"' :: rest => readString rest
    | '[' :: rest =>
      match skipBlanks rest with
      | ']' :: after => some (.array [], after)
      | rest => do
        let (items, after) ← readItems fuel rest
        return (.array items, after)
    | '\x7b' :: rest =>
      match skipBlanks rest with
      | '\x7d' :: after => some (.object [], after)
      | rest => do
        let (entries, after) ← readEntries fuel rest
        return (.object entries, after)
    | 'n' :: rest => readWord "null" .null ('n' :: rest)
    | 't' :: rest => readWord "true" (.bool true) ('t' :: rest)
    | 'f' :: rest => readWord "false" (.bool false) ('f' :: rest)
    | s => readNumber s

def readItems : Nat → List Char → Option (List Json × List Char)
  | 0, _ => none
  | fuel + 1, s => do
    let (item, after) ← readValue fuel s
    match skipBlanks after with
    | ',' :: rest =>
      let (items, after) ← readItems fuel rest
      return (item :: items, after)
    | ']' :: rest => return ([item], rest)
    | _ => none

def readEntries : Nat → List Char → Option (List (String × Json) × List Char)
  | 0, _ => none
  | fuel + 1, s => do
    match skipBlanks s with
    | '"' :: rest =>
      match ← readString rest with
      | (.string key, after) =>
        match skipBlanks after with
        | ':' :: rest =>
          let (value, after) ← readValue fuel rest
          match skipBlanks after with
          | ',' :: rest =>
            let (entries, after) ← readEntries fuel rest
            return ((key, value) :: entries, after)
          | '\x7d' :: rest => return ([(key, value)], rest)
          | _ => none
        | _ => none
      | _ => none
    | _ => none

end

def ofString? (text : String) : Option Json := do
  let s := text.toList
  let (value, after) ← readValue (s.length + 1) s
  if (skipBlanks after).isEmpty then some value else none

end SchemaMigration.Json
