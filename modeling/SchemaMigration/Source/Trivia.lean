import SchemaMigration.Character.Basic
import SchemaMigration.Source.Language

set_option autoImplicit false

namespace SchemaMigration.Source

def isLineEnd (c : Char) : Bool :=
  c == '\n' || c == '\u2028' || c == '\u2029'

def isSpace (c : Char) : Bool :=
  Character.isBlank c || c == '\ufeff' || c == '\u2060' || c == '\u200b'

def isPlainSpace (c : Char) : Bool :=
  c == ' ' || ('\t' ≤ c && c ≤ '\r')

def blockCommentEnd? : List Char → Option Nat
  | '*' :: '/' :: _ => some 2
  | _ :: rest => (blockCommentEnd? rest).map (· + 1)
  | [] => none

def commentLength? : List Char → Option Nat
  | '/' :: '/' :: rest =>
    some (2 + (rest.takeWhile fun c => !isLineEnd c && c != '\r').length)
  | '/' :: '*' :: rest => (blockCommentEnd? rest).map (· + 2)
  | _ => none

-- The length of the white space and comments that a text starts with; the first argument counts the
-- characters of a comment that are still to be passed.
def triviaFrom : Nat → List Char → Nat
  | _, [] => 0
  | inside + 1, _ :: rest => triviaFrom inside rest + 1
  | 0, c :: rest =>
    if isSpace c then triviaFrom 0 rest + 1
    else
      match commentLength? (c :: rest) with
      | some (n + 1) => triviaFrom n rest + 1
      | _ => 0

def triviaLength (s : List Char) : Nat :=
  triviaFrom 0 s

-- What follows the white space and comments at the start of a text, after passing `skip`
-- characters; `none` if a slash follows that starts no comment.
def pastBlanks? : Nat → List Char → Option (List Char)
  | _, [] => some []
  | skip + 1, _ :: rest => pastBlanks? skip rest
  | 0, c :: rest =>
    if isPlainSpace c then pastBlanks? 0 rest
    else if c == '/' then
      match commentLength? (c :: rest) with
      | some (n + 1) => pastBlanks? n rest
      | _ => none
    else some (c :: rest)

structure EndRule where
  language : Language
  operator : Bool
  signature : Bool := false

namespace EndRule

def startsName : List Char → Bool
  | 'i' :: 'n' :: rest =>
    if !(rest.head?.any Char.isAlpha) then false
    else
      match "stanceof".toList.isPrefixOf? rest with
      | some after => after.head?.any Char.isAlpha
      | none => true
  | _ => true

def startsStatement (r : EndRule) : List Char → Bool
  | [] => true
  | c :: rest =>
    if "\x60,:;*%><=?^|&/".toList.contains c then false
    else if c == '.' then r.language == .javaScript && rest.head?.any Char.isDigit
    else if c == '(' || c == '[' then r.language == .typeScript && !r.operator
    else if c == '{' then !r.signature
    else if c == '+' then rest.head? == some '+'
    else if c == '-' then rest.head? == some '-'
    else if c == '!' then rest.head? != some '='
    else startsName (c :: rest)

def nextLineEnds (r : EndRule) (next : List Char) : Bool :=
  match pastBlanks? 0 next with
  | some after => r.startsStatement after
  | none => false

def strictEnds (r : EndRule) : List Char → Bool
  | [] => true
  | c :: rest =>
    -- A brace with a colon after it closes a pattern, not a block.
    if c == '}' then r.operator || (rest.dropWhile isPlainSpace).head? != some ':'
    else if c == '\n' then r.nextLineEnds rest
    else if isPlainSpace c then r.strictEnds rest
    else false

inductive Look where
  | line
  | lineComment (left : Nat) (broken : Bool)
  | blockComment (left : Nat) (broken : Bool)

def lineChar (r : EndRule) (c : Char) (rest : List Char) (onward : Unit → Bool) : Bool :=
  if c == '}' then true
  else if isLineEnd c then r.nextLineEnds rest
  else if isPlainSpace c then onward ()
  else false

def commentsEnd (r : EndRule) (after : Option Char) : Bool :=
  !r.operator && after != some ',' && after != some '='

def enterComment? (broken : Bool) (rest : List Char) : Option Look :=
  match commentLength? ('/' :: rest) with
  | some (n + 1) =>
    if rest.head? == some '*' then
      some (.blockComment n (broken || (rest.take n).any isLineEnd))
    else some (.lineComment n broken)
  | _ => none

def looseEnds (r : EndRule) : Look → List Char → Bool
  | .line, [] => true
  -- Where no operator can follow, comments that reach over a line break end the statement.
  | .lineComment .., [] => r.commentsEnd none
  | .blockComment _ broken, [] => broken && r.commentsEnd none
  | .line, c :: rest =>
    if c == '/' then
      match enterComment? false rest with
      | some look => r.looseEnds look rest
      | none => false
    else r.lineChar c rest fun _ => r.looseEnds .line rest
  | .lineComment (left + 1) broken, _ :: rest => r.looseEnds (.lineComment left broken) rest
  | .lineComment 0 broken, c :: rest =>
    if isPlainSpace c then r.looseEnds (.lineComment 0 broken) rest
    else if c == '/' then
      match enterComment? broken rest with
      | some look => r.looseEnds look rest
      | none => false
    else r.commentsEnd (some c) || r.lineChar c rest fun _ => r.looseEnds .line rest
  | .blockComment (left + 1) broken, _ :: rest => r.looseEnds (.blockComment left broken) rest
  | .blockComment 0 broken, c :: rest =>
    if c == '/' then
      match enterComment? broken rest with
      | some look => r.looseEnds look rest
      | none => false
    else (broken && r.commentsEnd (some c)) || r.lineChar c rest fun _ => r.looseEnds .line rest

def ends (r : EndRule) (s : List Char) : Bool :=
  match r.language with
  | .javaScript => r.looseEnds .line s
  | .typeScript => r.strictEnds s

def endFrom? (r : EndRule) (written : List Char) : Bool → Nat → List Char → Option Nat
  | tried, _, [] => if tried then none else some 0
  | _, skip + 1, _ :: rest => (r.endFrom? written false skip rest).map (· + 1)
  | tried, 0, c :: rest =>
    -- No statement ends inside white space: there the place before it was tried already.
    if !tried && r.ends (c :: rest) then some 0
    else if isSpace c then (r.endFrom? written true 0 rest).map (· + 1)
    else if written.contains c then some 1
    else
      match commentLength? (c :: rest) with
      | some (n + 1) => (r.endFrom? written false n rest).map (· + 1)
      | _ => none

def endLength? (r : EndRule) (written : List Char) (s : List Char) : Option Nat :=
  r.endFrom? written false 0 s

end EndRule

end SchemaMigration.Source
