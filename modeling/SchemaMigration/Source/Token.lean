import SchemaMigration.Source.Trivia

set_option autoImplicit false

namespace SchemaMigration.Source

def isPunctuation (c : Char) : Bool :=
  ":;\x60\"'@#.,|^&<=>+-*/\\%?!~()[]\x7b\x7d".toList.contains c

def isNameChar (c : Char) : Bool :=
  ' ' < c && !isSpace c && !isPunctuation c

def isNameStart (c : Char) : Bool :=
  isNameChar c && !c.isDigit

def isHexDigit (c : Char) : Bool :=
  c.isDigit || ('a' ≤ c && c ≤ 'f') || ('A' ≤ c && c ≤ 'F')

def isOctalDigit (c : Char) : Bool :=
  '0' ≤ c && c ≤ '7'

def codePointLength? : List Char → Option Nat
  | 'u' :: rest =>
    if (rest.take 4).length == 4 && (rest.take 4).all isHexDigit then some 5
    else if rest.head? == some '\x7b' then
      let digits := (rest.tail.takeWhile isHexDigit).length
      if 0 < digits && (rest.drop (digits + 1)).head? == some '\x7d' then some (digits + 3)
      else none
    else none
  | _ => none

def nameCharLength? (accepts : Char → Bool) : List Char → Option Nat
  | [] => none
  | c :: rest =>
    if accepts c then some 1
    else if c == '\\' then (codePointLength? rest).map (· + 1)
    else none

def nameFrom : Nat → List Char → Nat
  | _, [] => 0
  | skip + 1, _ :: rest => nameFrom skip rest + 1
  | 0, c :: rest =>
    match nameCharLength? isNameChar (c :: rest) with
    | some (n + 1) => nameFrom n rest + 1
    | _ => 0

def nameLength? (s : List Char) : Option Nat :=
  match nameCharLength? isNameStart s with
  | some _ => some (nameFrom 0 s)
  | none => none

def privateNameLength? : List Char → Option Nat
  | '#' :: rest => (nameLength? rest).map (· + 1)
  | _ => none

def moreDigits (digit : Char → Bool) : List Char → Nat
  | [] => 0
  | '_' :: c :: rest => if digit c then moreDigits digit rest + 2 else 0
  | c :: rest => if digit c then moreDigits digit rest + 1 else 0

def digitsLength? (digit : Char → Bool) : List Char → Option Nat
  | [] => none
  | c :: rest => if digit c then some (moreDigits digit rest + 1) else none

def exponentLength? : List Char → Option Nat
  | c :: rest =>
    if c == 'e' || c == 'E' then
      match rest with
      | sign :: digits =>
        if sign == '+' || sign == '-' then (digitsLength? Char.isDigit digits).map (· + 2)
        else (digitsLength? Char.isDigit rest).map (· + 1)
      | [] => none
    else none
  | [] => none

def withExponent (length : Nat) (s : List Char) : Nat :=
  length + ((exponentLength? (s.drop length)).getD 0)

def isWholePart : List Char → Bool
  | ['0'] => true
  | '0' :: c :: _ => '1' ≤ c && c ≤ '9'
  | _ => true

def radixNumberLength? : List Char → Option Nat
  | '0' :: mark :: rest =>
    let digits :=
      if mark == 'x' || mark == 'X' then digitsLength? isHexDigit rest
      else if mark == 'b' || mark == 'B' then digitsLength? (fun c => c == '0' || c == '1') rest
      else if mark == 'o' || mark == 'O' then digitsLength? isOctalDigit rest
      else none
    digits.map fun n => n + 2 + (if (rest.drop n).head? == some 'n' then 1 else 0)
  | _ => none

def decimalNumberLength? (s : List Char) : Option Nat :=
  match digitsLength? Char.isDigit s with
  | none =>
    if s.head? == some '.' then
      (digitsLength? Char.isDigit s.tail).map fun n => withExponent (n + 1) s
    else none
  | some n =>
    let after := s.drop n
    if after.head? == some 'n' then some (n + 1)
    else if !isWholePart (s.take n) then some n
    else if after.head? == some '.' then
      some (withExponent (n + 1 + (digitsLength? Char.isDigit after.tail).getD 0) s)
    else some (withExponent n s)

def numberLength? (s : List Char) : Option Nat :=
  (radixNumberLength? s).or (decimalNumberLength? s)

def escapeLength? : List Char → Option Nat
  | '\\' :: c :: rest =>
    if isOctalDigit c then some (2 + ((rest.take 2).takeWhile isOctalDigit).length)
    else if c == 'x' then
      if (rest.take 2).length == 2 && (rest.take 2).all isHexDigit then some 4 else none
    else if c == 'u' then (codePointLength? (c :: rest)).map (· + 1)
    else if c == '\r' && rest.head? == some '\n' then some 3
    else some 2
  | _ => none

-- A comment as in markup: it goes on to the end of the line.
def markupCommentLength? (s : List Char) : Option Nat :=
  if "<!--".toList.isPrefixOf s || "-->".toList.isPrefixOf s then
    some (s.takeWhile fun c => !isLineEnd c).length
  else none

def stringFrom? (quote : Char) : Nat → List Char → Option Nat
  | _, [] => none
  | skip + 1, _ :: rest => (stringFrom? quote skip rest).map (· + 1)
  | 0, c :: rest =>
    if c == quote then some 1
    else if c == '\\' then
      match escapeLength? (c :: rest) with
      | some (n + 1) => (stringFrom? quote n rest).map (· + 1)
      | _ => none
    else if c == '\n' || c == '\r' then none
    else (stringFrom? quote 0 rest).map (· + 1)

def stringLength? : List Char → Option Nat
  | [] => none
  | q :: rest => if q == '\'' || q == '"' then (stringFrom? q 0 rest).map (· + 1) else none

def templateTextLength : List Char → Nat
  | [] => 0
  | c :: rest =>
    if c == '\x60' || c == '\\' || (c == '$' && rest.head? == some '\x7b') then 0
    else templateTextLength rest + 1

-- The length of the rest of a regular expression, with its closing slash; the first flag says that
-- a character class is open, the second that a backslash stands before.
def regexFrom? : Bool → Bool → List Char → Option Nat
  | _, _, [] => none
  | inClass, escaped, c :: rest =>
    if c == '\n' then none
    else if escaped then (regexFrom? inClass false rest).map (· + 1)
    else if c == '\\' then (regexFrom? inClass true rest).map (· + 1)
    else if inClass then (regexFrom? (c != ']') false rest).map (· + 1)
    else if c == '/' then some 1
    else (regexFrom? (c == '[') false rest).map (· + 1)

def regexLength? : List Char → Option Nat
  | '/' :: rest => do
    if rest.head? == some '/' || rest.head? == some '*' then none
    let n ← regexFrom? false false rest
    return n + 1 + ((rest.drop n).takeWhile fun c => 'a' ≤ c && c ≤ 'z').length
  | _ => none

def operators : List String :=
  [">>>=", "...", "===", "!==", "**=", "<<=", ">>=", ">>>", "&&=", "||=", "??=", "=>", "==", "!=",
    "<=", ">=", "&&", "||", "??", "?.", "++", "--", "+=", "-=", "*=", "/=", "%=", "&=", "|=", "^=",
    "<<", ">>", "**", "+", "-", "*", "/", "%", "&", "|", "^", "<", ">", "=", "!", "~", "?", ":",
    "."]

def operatorAt (s : List Char) : String :=
  match operators.find? (·.toList.isPrefixOf s) with
  -- A question mark before a decimal such as `.5` is an operator of its own.
  | some "?." => if (s.drop 2).head?.any Char.isDigit then "?" else "?."
  | some operator => operator
  | none => ""

def binaryOperators : List String :=
  ["&&", "||", "??", ">>", ">>>", "<<", "&", "^", "|", "+", "-", "*", "/", "%", "**", "<", "<=",
    "==", "===", "!=", "!==", ">=", ">"]

def assignmentOperators : List String :=
  ["=", "+=", "-=", "*=", "/=", "%=", "^=", "&=", "|=", ">>=", ">>>=", "<<=", "**=", "&&=", "||=",
    "??="]

end SchemaMigration.Source
