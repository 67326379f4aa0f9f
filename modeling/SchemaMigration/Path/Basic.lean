set_option autoImplicit false

namespace SchemaMigration

inductive Component where
  | root
  | current
  | parent
  | name (text : String)
deriving DecidableEq, Repr, Inhabited

namespace Component

def text : Component → String
  | .root => "/"
  | .current => "."
  | .parent => ".."
  | .name text => text

def rank : Component → Nat
  | .root => 0
  | .current => 1
  | .parent => 2
  | .name _ => 3

def le (a b : Component) : Bool :=
  match a, b with
  | .name x, .name y => decide (x ≤ y)
  | a, b => a.rank ≤ b.rank

def ofPiece? (piece : List Char) : Option Component :=
  if piece == [] || piece == ['.'] then none
  else if piece == ['.', '.'] then some .parent
  else some (.name (String.ofList piece))

end Component

structure Path where
  text : String
deriving Repr, Inhabited

namespace Path

def ofString (text : String) : Path := ⟨text⟩

instance : ToString Path := ⟨Path.text⟩

def pieces (p : Path) : List (List Char) :=
  p.text.toList.splitOn '/'

def isAbsolute (p : Path) : Bool :=
  p.text.toList.head? == some '/'

def components (p : Path) : List Component :=
  let steps := p.pieces.filterMap Component.ofPiece?
  if p.isAbsolute then .root :: steps
  else if p.pieces.head? == some ['.'] then .current :: steps
  else steps

instance : BEq Path := ⟨fun p q => p.components == q.components⟩

theorem beq_iff_components {p q : Path} : (p == q) = true ↔ p.components = q.components := by
  change (p.components == q.components) = true ↔ _
  exact beq_iff_eq

instance : EquivBEq Path where
  rfl := beq_iff_components.mpr rfl
  symm same := beq_iff_components.mpr (beq_iff_components.mp same).symm
  trans first second :=
    beq_iff_components.mpr ((beq_iff_components.mp first).trans (beq_iff_components.mp second))

def componentsLe : List Component → List Component → Bool
  | [], _ => true
  | _ :: _, [] => false
  | a :: as, b :: bs => if a == b then componentsLe as bs else a.le b

def le (p q : Path) : Bool :=
  componentsLe p.components q.components

def join (p q : Path) : Path :=
  if q.isAbsolute then q
  else if p.text.isEmpty || p.text.toList.getLast? == some '/' then ⟨p.text ++ q.text⟩
  else ⟨p.text ++ "/" ++ q.text⟩

def ofComponents (steps : List Component) : Path :=
  steps.foldl (fun p step => p.join ⟨step.text⟩) ⟨""⟩

def isStep (first : Bool) (piece : List Char) : Bool :=
  (Component.ofPiece? piece).isSome || (first && piece == ['.'])

def dropNoSteps : List (List Char) → List (List Char)
  | [] => []
  | piece :: before =>
    if isStep before.isEmpty piece then piece :: before else dropNoSteps before

def ofPiecesReversed (absolute : Bool) (backwards : List (List Char)) : Path :=
  let text := (['/'] : List Char).intercalate backwards.reverse
  if absolute && backwards.all (·.isEmpty) then ⟨"/"⟩ else ⟨String.ofList text⟩

def parent? (p : Path) : Option Path :=
  match dropNoSteps p.pieces.reverse with
  | [] => none
  | _ :: before => some (ofPiecesReversed p.isAbsolute
      (let kept := dropNoSteps before
       if p.isAbsolute && kept.isEmpty then [[]] else kept))

def fileName? (p : Path) : Option String :=
  match p.components.getLast? with
  | some (.name text) => some text
  | _ => none

def splitExtension (fileName : List Char) : List Char × Option (List Char) :=
  match fileName.reverse.span (· != '.') with
  | (_, []) => (fileName, none)
  | (_, [_]) => (fileName, none)
  | (extension, _ :: stem) => (stem.reverse, some extension.reverse)

def extension? (p : Path) : Option String := do
  let name ← p.fileName?
  let extension ← (splitExtension name.toList).2
  return String.ofList extension

def withoutExtension (p : Path) : Path :=
  match dropNoSteps p.pieces.reverse, p.fileName? with
  | _ :: before, some name =>
    ofPiecesReversed p.isAbsolute ((splitExtension name.toList).1 :: before)
  | _, _ => p

def startsWith (p base : Path) : Bool :=
  base.components.isPrefixOf p.components

def dropSteps : Nat → List (List Char) → List (List Char)
  | _, [] => []
  | n, piece :: rest =>
    match (Component.ofPiece? piece).isSome, n with
    | true, 0 => piece :: rest
    | true, n + 1 => dropSteps n rest
    | false, n => dropSteps n rest

def below? (p base : Path) : Option Path :=
  if p.startsWith base then
    match base.components.length with
    | 0 => some (ofPiecesReversed p.isAbsolute (dropNoSteps p.pieces.reverse))
    | n + 1 =>
      let kept :=
        dropSteps (if p.isAbsolute || p.pieces.head? == some ['.'] then n else n + 1) p.pieces
      some ⟨String.ofList ((['/'] : List Char).intercalate (dropNoSteps kept.reverse).reverse)⟩
  else none

def depth (p : Path) : Nat :=
  p.components.length

end Path

end SchemaMigration
