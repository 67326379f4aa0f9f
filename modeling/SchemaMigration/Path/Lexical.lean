import SchemaMigration.Path.Basic

set_option autoImplicit false

namespace SchemaMigration

inductive PathError where
  | outsideRoot (path root : Path)

namespace PathError

def message : PathError → String
  | .outsideRoot path root => s!"path escapes root: {path.text} (root: {root.text})"

end PathError

namespace Path

def takeStep (done : List Component) : Component → List Component
  | .current => done
  | .parent =>
    match done with
    | .name _ :: before => before
    | .root :: before => .root :: before
    -- Nothing can be undone, so the `..` is kept.
    | done => .parent :: done
  | step => step :: done

def normalSteps (steps : List Component) : List Component :=
  (steps.foldl takeStep []).reverse

def normalize (p : Path) : Path :=
  ofComponents (normalSteps p.components)

def isWithin (p root : Path) : Bool :=
  p.normalize.startsWith root.normalize

def checkWithin (p root : Path) : Except PathError Path :=
  if p.isWithin root then .ok p.normalize
  else .error (.outsideRoot p.normalize root.normalize)

def dropCommon : List Component → List Component → List Component × List Component
  | a :: as, b :: bs => if a == b then dropCommon as bs else (a :: as, b :: bs)
  | as, bs => (as, bs)

def relativeTo (target directory : Path) : Path :=
  let (up, down) := dropCommon directory.normalize.components target.normalize.components
  ofComponents (up.map (fun _ => .parent) ++ down)

def toSpecifier (p : Path) : String :=
  let joined := "/".intercalate (p.components.map Component.text)
  if "../".toList.isPrefixOf joined.toList || joined == ".." then joined
  else if joined.isEmpty then "."
  else "./" ++ joined

def stripExtension (p : Path) (extensions : List String) : Path :=
  match extensions.findSome? fun e => e.toList.isSuffixOf? p.text.toList with
  | some stripped => ⟨String.ofList stripped⟩
  | none => p

end Path

def isRelativeSpecifier (specifier : String) : Bool :=
  specifier == "." || specifier == ".." || "./".toList.isPrefixOf specifier.toList
    || "../".toList.isPrefixOf specifier.toList

end SchemaMigration
