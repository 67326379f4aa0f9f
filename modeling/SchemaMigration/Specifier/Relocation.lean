import SchemaMigration.Path.Lexical
import SchemaMigration.Text.Parts

set_option autoImplicit false

namespace SchemaMigration

structure ImportMapping where
  directory : String
  importBase : String
deriving DecidableEq, Repr

inductive RelocationStrategy where
  | unchanged
  | mapping
  | geometric
  | heuristic
deriving DecidableEq, Repr

namespace ImportMapping

def segments (directory : String) : List String :=
  ((directory.toList.splitOn '/').filter fun s => s != [] && s != ['.']).map String.ofList

def afterSegments? (segments : List String) : List String → Option (List String)
  | [] => if segments.isEmpty then some [] else none
  | s :: rest =>
    match segments.isPrefixOf? (s :: rest) with
    | some after => some after
    | none => afterSegments? segments rest

def takeSegment? (place : List String) (segment : String) : Option (List String) :=
  if segment == "" || segment == "." then some place
  else if segment == ".." then
    match place with
    | [] => none
    | _ :: above => some above
  else some (segment :: place)

def follow? (place : List String) (specifier : String) : Option (List String) :=
  let segments := (specifier.toList.splitOn '/').map String.ofList
  (segments.foldlM takeSegment? place.reverse).map List.reverse

def names (p : Path) : List String :=
  p.components.filterMap fun
    | .name text => some text
    | _ => none

def stem (fileName : String) : String :=
  String.ofList (Path.splitExtension fileName.toList).1

def startOf (below : List String) (specifier : String) : List String :=
  -- One that goes up starts from the file's own module, not from its directory.
  let goesUp := "../".toList.isPrefixOf specifier.toList
  below.dropLast ++ (if goesUp then (below.getLast?.map stem).toList else [])

def relocate? (m : ImportMapping) (specifier : String) (source : Path) : Option String := do
  let directory := segments m.directory
  guard !directory.isEmpty
  let below ← afterSegments? directory (names source)
  guard !below.isEmpty
  let place ← follow? (startOf below specifier) specifier
  return "/".intercalate (String.ofList (Text.trimSlashes m.importBase.toList) :: place)

end ImportMapping

def geometricSpecifier? (specifier : String) (source target : Option Path) : Option String := do
  let sourceDirectory ← (← source).parent?
  let targetDirectory ← (← target).parent?
  return ((sourceDirectory.join ⟨specifier⟩).normalize.relativeTo targetDirectory).toSpecifier

def heuristicSpecifier (specifier : String) : String :=
  match "./".toList.isPrefixOf? specifier.toList with
  | some rest => "../" ++ String.ofList rest
  | none => "../" ++ specifier

def relocate (mappings : List ImportMapping) (specifier : String) (source target : Option Path) :
    String × RelocationStrategy :=
  if !isRelativeSpecifier specifier then (specifier, .unchanged)
  else
    match source.bind fun s => mappings.findSome? (·.relocate? specifier s) with
    | some mapped => (mapped, .mapping)
    | none =>
      match geometricSpecifier? specifier source target with
      | some relative => (relative, .geometric)
      | none => (heuristicSpecifier specifier, .heuristic)

end SchemaMigration
