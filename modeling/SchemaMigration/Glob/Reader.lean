import SchemaMigration.Glob.Basic

set_option autoImplicit false

namespace SchemaMigration.Glob

inductive Fault where
  | unclosedClass
  | invalidRange (low high : Char)
  | unopenedAlternatives
  | unclosedAlternatives
  | danglingEscape
deriving DecidableEq, Repr

def Fault.message : Fault → String
  | .unclosedClass => "unclosed character class; missing ']'"
  | .invalidRange low high => s!"invalid range; '{low}' > '{high}'"
  | .unopenedAlternatives =>
    "unopened alternate group; missing '\x7b' (maybe escape '\x7d' with '[\x7d]'?)"
  | .unclosedAlternatives =>
    "unclosed alternate group; missing '\x7d' (maybe escape '\x7b' with '[\x7b]'?)"
  | .danglingEscape => "dangling '\\'"

def byteRanges (low high : Char) : List (UInt8 × UInt8) :=
  let lows := bytesOf low
  let highs := bytesOf high
  if low == high then lows.map fun b => (b, b)
  else
    (lows.dropLast.map fun b => (b, b)) ++ lows.getLast?.toList.zip highs.head?.toList
      ++ (highs.tail.map fun b => (b, b))

-- How far the reading of a character class has come: the ranges so far, the last one first, and
-- whether the last character was a dash that may join two others.
structure ClassState where
  ranges : List (Char × Char)
  joining : Bool

def ClassState.take (state : ClassState) (c : Char) : Except Fault ClassState :=
  match state.joining, state.ranges with
  | true, (low, _) :: before =>
    if c < low then .error (.invalidRange low c) else .ok ⟨(low, c) :: before, false⟩
  | _, ranges =>
    if c == '-' && !ranges.isEmpty then .ok ⟨ranges, true⟩ else .ok ⟨(c, c) :: ranges, false⟩

def readClass (state : ClassState) : List Char → Except Fault (ClassState × List Char)
  | [] => .error .unclosedClass
  | c :: rest =>
    if c == ']' && !state.ranges.isEmpty then .ok (state, rest)
    else
      match state.take c with
      | .ok next => readClass next rest
      | .error fault => .error fault

def ClassState.token (state : ClassState) (negated : Bool) : Token :=
  let ranges := if state.joining then ('-', '-') :: state.ranges else state.ranges
  .byteClass negated (ranges.reverse.flatMap fun (low, high) => byteRanges low high)

-- A pattern that is being read: its tokens backwards, and around it the alternatives of the groups
-- that are open, each with the tokens before the group.
structure State where
  tokens : List Token
  groups : List (List (List Token) × List Token)

namespace State

def push (state : State) (token : Token) : State :=
  { state with tokens := token :: state.tokens }

def pushChar (state : State) (c : Char) : State :=
  { state with tokens := ((bytesOf c).map Token.byte).reverse ++ state.tokens }

def pushStars (state : State) : State :=
  { state with tokens := .star :: .star :: state.tokens }

def openGroup (state : State) : State :=
  { tokens := [], groups := ([], state.tokens) :: state.groups }

def comma (state : State) : State :=
  match state.groups with
  | [] => state.pushChar ','
  | (done, before) :: outer =>
    { tokens := [], groups := (state.tokens.reverse :: done, before) :: outer }

def closeGroup (state : State) : Except Fault State :=
  match state.groups with
  | [] => .error .unopenedAlternatives
  | (done, before) :: outer =>
    let patterns := (state.tokens.reverse :: done).reverse
    .ok { tokens := .alternatives patterns :: before, groups := outer }

def pushSteps (state : State) (token : Token) : State :=
  match state.tokens with
  | .leadingSteps :: _ | .trailingSteps :: _ => state
  -- They take the place of the slash before them.
  | _ :: before => { state with tokens := token :: before }
  | [] => state.push token

end State

-- What two stars stand for after `previous` and before `rest`, and how many characters of `rest`
-- they take with them.
def readStars (state : State) (previous : Option Char) (rest : List Char) : State × Nat :=
  let inGroup := !state.groups.isEmpty
  let next := rest.head?
  if state.tokens.isEmpty then
    match next with
    | none => (state.push .leadingSteps, 0)
    | some c => if c == '/' then (state.push .leadingSteps, 1) else (state.pushStars, 0)
  else if previous != some '/' && !(inGroup && (previous == some ',' || previous == some '\x7b'))
  then (state.pushStars, 0)
  else
    match next with
    | none => (state.pushSteps .trailingSteps, 0)
    | some c =>
      if inGroup && (c == ',' || c == '\x7d') then (state.pushSteps .trailingSteps, 0)
      else if c == '/' then (state.pushSteps .innerSteps, 1)
      else (state.pushStars, 0)

def readFrom : Nat → State → Option Char → List Char → Except Fault State
  | 0, state, _, _ => .ok state
  | _ + 1, state, _, [] => .ok state
  | fuel + 1, state, previous, c :: rest =>
    match c with
    | '?' => readFrom fuel (state.push .any) (some c) rest
    | '*' =>
      match rest with
      | '*' :: after =>
        let (next, taken) := readStars state previous after
        readFrom fuel next (if taken == 0 then some '*' else some '/') (after.drop taken)
      | _ => readFrom fuel (state.push .star) (some c) rest
    | '[' =>
      let negated := rest.head? == some '!' || rest.head? == some '^'
      match readClass ⟨[], false⟩ (if negated then rest.tail else rest) with
      | .ok (found, after) => readFrom fuel (state.push (found.token negated)) (some ']') after
      | .error fault => .error fault
    | '\x7b' => readFrom fuel state.openGroup (some c) rest
    | '\x7d' =>
      match state.closeGroup with
      | .ok next => readFrom fuel next (some c) rest
      | .error fault => .error fault
    | ',' => readFrom fuel state.comma (some c) rest
    | '\\' =>
      match rest with
      | [] => .error .danglingEscape
      | escaped :: after => readFrom fuel (state.pushChar escaped) (some escaped) after
    | c => readFrom fuel (state.pushChar c) (some c) rest

def ofString (pattern : String) : Except Fault Glob := do
  let s := pattern.toList
  let state ← readFrom (s.length + 1) ⟨[], []⟩ none s
  if state.groups.isEmpty then .ok ⟨state.tokens.reverse⟩ else .error .unclosedAlternatives

end SchemaMigration.Glob
