import SchemaMigration.Path.Lexical

set_option autoImplicit false

namespace SchemaMigration

inductive DiskError where
  | notFound
  | exists
  | notADirectory
  | isADirectory
  | tooManyLinks
  | invalidText
  | nulInPath
  | system (text : String) (code : Nat)
deriving DecidableEq, Repr

def DiskError.message : DiskError → String
  | .notFound => "No such file or directory (os error 2)"
  | .exists => "File exists (os error 17)"
  | .notADirectory => "Not a directory (os error 20)"
  | .isADirectory => "Is a directory (os error 21)"
  | .tooManyLinks => "Too many levels of symbolic links (os error 40)"
  | .invalidText => "stream did not contain valid UTF-8"
  | .nulInPath => "file name contained an unexpected NUL byte"
  | .system text code => s!"{text} (os error {code})"

def DiskError.noSpace : DiskError := .system "No space left on device" 28

inductive Entry where
  | file (contents : ByteArray)
  | directory
  | link (target : Path)
  -- The null device: it takes all that is written to it and reads as empty.
  | sink

abbrev Place := List String

-- What the system refuses beyond what the entries tell: directories to make, files to open, and the
-- bytes of a text after the given number of them.
structure Faults where
  making : List (Place × Entry) → Place → Option DiskError := fun _ _ => none
  opening : List (Place × Entry) → Place → Option DiskError := fun _ _ => none
  writing : List (Place × Entry) → Place → ByteArray → Option (Nat × DiskError) :=
    fun _ _ _ => none

structure Disk where
  entries : List (Place × Entry)
  workingDirectory : Place
  faults : Faults := {}

namespace Disk

def empty : Disk where
  entries := [(["dev"], .directory), (["dev", "null"], .sink)]
  workingDirectory := []

def entryAt? (d : Disk) (place : Place) : Option Entry :=
  if place.isEmpty then some .directory else d.entries.lookup place

def isDirectoryAt (d : Disk) (place : Place) : Bool :=
  match d.entryAt? place with
  | some .directory => true
  | _ => false

def setEntry (place : Place) (entry : Entry) : List (Place × Entry) → List (Place × Entry)
  | [] => [(place, entry)]
  | (p, e) :: rest =>
    if p == place then (p, entry) :: rest else (p, e) :: setEntry place entry rest

def set (d : Disk) (place : Place) (entry : Entry) : Disk :=
  { d with entries := setEntry place entry d.entries }

def pathOf (place : Place) : Path :=
  ⟨"/" ++ "/".intercalate place⟩

def children (d : Disk) (place : Place) : List (String × Entry) :=
  let found := d.entries.filterMap fun (p, e) =>
    match p.getLast? with
    | some name => if p.dropLast == place then some (name, e) else none
    | none => none
  found.mergeSort fun a b => decide (a.1 ≤ b.1)

end Disk

end SchemaMigration
