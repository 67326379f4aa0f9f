import SchemaMigration.Disk.Basic

set_option autoImplicit false

namespace SchemaMigration

inductive Target where
  | existing (place : Place)
  | absent (place : Place)

namespace Disk

def piecesOf (p : Path) : List String :=
  p.pieces.map String.ofList

-- Takes the steps of a path one by one. A link on the way, or at the end if `followLast`, is handed
-- to `onLink` with the place that its target starts from and the steps still to take.
def walkWith (d : Disk) (onLink : Place → List String → Except DiskError Target)
    (followLast : Bool) : Place → List String → Except DiskError Target
  | place, [] => .ok (.existing place)
  | place, piece :: rest =>
    if !d.isDirectoryAt place then .error .notADirectory
    else if piece == "" || piece == "." then d.walkWith onLink followLast place rest
    else if piece == ".." then d.walkWith onLink followLast place.dropLast rest
    else
      let next := place ++ [piece]
      match d.entryAt? next with
      | none => if rest.isEmpty then .ok (.absent next) else .error .notFound
      | some (.link target) =>
        if rest.isEmpty && !followLast then .ok (.existing next)
        else onLink (if target.isAbsolute then [] else place) (piecesOf target ++ rest)
      | some _ => d.walkWith onLink followLast next rest

def walk (d : Disk) (followLast : Bool) : Nat → Place → List String → Except DiskError Target
  | 0 => d.walkWith (fun _ _ => .error .tooManyLinks) followLast
  | links + 1 => d.walkWith (d.walk followLast links) followLast

def maxLinks : Nat := 40

def locate (d : Disk) (followLast : Bool) (p : Path) : Except DiskError Target :=
  if p.text.toList.contains '\x00' then .error .nulInPath
  else if p.text.isEmpty then .error .notFound
  else d.walk followLast maxLinks (if p.isAbsolute then [] else d.workingDirectory) (piecesOf p)

def find (d : Disk) (p : Path) : Except DiskError Place :=
  match d.locate true p with
  | .ok (.existing place) => .ok place
  | .ok (.absent _) => .error .notFound
  | .error e => .error e

def stat? (d : Disk) (p : Path) : Option Entry :=
  match d.find p with
  | .ok place => d.entryAt? place
  | .error _ => none

def isFile (d : Disk) (p : Path) : Bool :=
  match d.stat? p with
  | some (.file _) => true
  | _ => false

def isDirectory (d : Disk) (p : Path) : Bool :=
  match d.stat? p with
  | some .directory => true
  | _ => false

def canonicalize (d : Disk) (p : Path) : Except DiskError Path :=
  match d.find p with
  | .ok place => .ok (pathOf place)
  | .error e => .error e

def canonicalOrNormal (d : Disk) (p : Path) : Path :=
  match d.canonicalize p with
  | .ok canonical => canonical
  | .error _ => p.normalize

def readText (d : Disk) (p : Path) : Except DiskError String :=
  match d.find p with
  | .error e => .error e
  | .ok place =>
    match d.entryAt? place with
    | some (.file contents) =>
      match String.fromUTF8? contents with
      | some text => .ok text
      | none => .error .invalidText
    | some .sink => .ok ""
    | some .directory => .error .isADirectory
    | _ => .error .notFound

end Disk

end SchemaMigration
