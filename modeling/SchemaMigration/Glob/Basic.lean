import SchemaMigration.Text.Bytes

set_option autoImplicit false

namespace SchemaMigration

namespace Glob

inductive Token where
  | byte (value : UInt8)
  | any
  | star
  | leadingSteps
  | trailingSteps
  | innerSteps
  | byteClass (negated : Bool) (ranges : List (UInt8 × UInt8))
  | alternatives (patterns : List (List Token))

def bytesOf (c : Char) : List UInt8 :=
  c.toString.toUTF8.toList

def ends : List UInt8 → List (List UInt8)
  | [] => [[]]
  | b :: rest => (b :: rest) :: ends rest

def afterSlashes : List UInt8 → List (List UInt8)
  | [] => []
  | b :: rest => if b == 47 then rest :: afterSlashes rest else afterSlashes rest

def inRanges (ranges : List (UInt8 × UInt8)) (b : UInt8) : Bool :=
  ranges.any fun (low, high) => low ≤ b && b ≤ high

mutual

def isVoid : List Token → Bool
  | [] => true
  | .alternatives patterns :: rest => allVoid patterns && isVoid rest
  | _ :: _ => false

def allVoid : List (List Token) → Bool
  | [] => true
  | pattern :: rest => isVoid pattern && allVoid rest

end

mutual

def runToken : Token → (List UInt8 → Bool) → List UInt8 → Bool
  | .byte value, accept, s =>
    match s with
    | [] => false
    | b :: rest => b == value && accept rest
  | .any, accept, s =>
    match s with
    | [] => false
    | _ :: rest => accept rest
  | .star, accept, s => (ends s).any accept
  | .leadingSteps, accept, s => accept s || (afterSlashes s).any accept
  | .trailingSteps, accept, s =>
    match s with
    | [] => false
    | b :: rest => b == 47 && (ends rest).any accept
  | .innerSteps, accept, s =>
    match s with
    | [] => false
    | b :: rest => b == 47 && (accept rest || (afterSlashes rest).any accept)
  | .byteClass negated ranges, accept, s =>
    match s with
    | [] => false
    | b :: rest => (inRanges ranges b != negated) && accept rest
  | .alternatives patterns, accept, s =>
    if allVoid patterns then accept s else runAny patterns accept s

def runAll : List Token → (List UInt8 → Bool) → List UInt8 → Bool
  | [], accept, s => accept s
  | token :: rest, accept, s => runToken token (runAll rest accept) s

def runAny : List (List Token) → (List UInt8 → Bool) → List UInt8 → Bool
  | [], _, _ => false
  | pattern :: rest, accept, s =>
    (!isVoid pattern && runAll pattern accept s) || runAny rest accept s

end

end Glob

structure Glob where
  tokens : List Glob.Token

namespace Glob

def isMatch (g : Glob) (text : String) : Bool :=
  match g.tokens with
  | [.leadingSteps] => true
  | tokens => runAll tokens List.isEmpty text.toUTF8.toList

end Glob

end SchemaMigration
