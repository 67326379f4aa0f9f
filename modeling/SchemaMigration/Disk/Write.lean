import SchemaMigration.Disk.Walk

set_option autoImplicit false

namespace SchemaMigration.Disk

def makeDirectory (d : Disk) (p : Path) : Except DiskError Disk :=
  match d.locate false p with
  | .ok (.absent place) =>
    match d.faults.making d.entries place with
    | some e => .error e
    | none => .ok (d.set place .directory)
  | .ok (.existing _) => .error .exists
  | .error e => .error e

def ensureDirectory (d : Disk) (p : Path) : Except DiskError Disk :=
  match d.makeDirectory p with
  | .ok made => .ok made
  | .error e => if d.isDirectory p then .ok d else .error e

-- Makes a directory and those above it that are missing; `fuel` is more than its depth. What was
-- made stays when a later one fails.
def makeDirectories (d : Disk) : Nat → Path → Disk × Option DiskError
  | 0, _ => (d, some .notFound)
  | fuel + 1, p =>
    if p.text.isEmpty then (d, none)
    else
      match d.ensureDirectory p with
      | .ok made => (made, none)
      | .error .notFound =>
        match p.parent? with
        | none => (d, some .notFound)
        | some above =>
          match d.makeDirectories fuel above with
          | (made, none) =>
            match made.ensureDirectory p with
            | .ok all => (all, none)
            | .error e => (made, some e)
          | (made, some e) => (made, some e)
      | .error e => (d, some e)

def createDirectories (d : Disk) (p : Path) : Disk × Option DiskError :=
  d.makeDirectories (p.depth + 1) p

def openAt (d : Disk) (place : Place) : Except DiskError Place :=
  match d.faults.opening d.entries place with
  | some e => .error e
  | none => .ok place

def openForWriting (d : Disk) (p : Path) : Except DiskError Place :=
  match d.locate true p with
  | .error e => .error e
  | .ok (.absent place) => d.openAt place
  | .ok (.existing place) =>
    match d.entryAt? place with
    | some (.file _) => d.openAt place
    | some .sink => d.openAt place
    | _ => .error .isADirectory

-- Opening has emptied the file: a fault leaves the beginning of the new contents.
def store (d : Disk) (place : Place) (contents : ByteArray) : Disk × Option DiskError :=
  match d.entryAt? place with
  | some .sink => (d, none)
  | _ =>
    match d.faults.writing d.entries place contents with
    | none => (d.set place (.file contents), none)
    | some (kept, e) => (d.set place (.file (contents.extract 0 kept)), some e)

def writeText (d : Disk) (p : Path) (text : String) : Disk × Option DiskError :=
  match d.openForWriting p with
  | .error e => (d, some e)
  | .ok place => d.store place text.toUTF8

end SchemaMigration.Disk
