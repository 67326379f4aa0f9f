import SchemaMigration.Command.Basic

set_option autoImplicit false

namespace SchemaMigration

structure Snapshot where
  disk : Disk
  walked : List Place

namespace Snapshot

def placeOf (text : String) : Place :=
  (Path.ofString text).normalize.components.filterMap fun
    | .name name => some name
    | _ => none

def entryAt? (place : Place) : IO (Option Entry) := do
  let path := (← IO.currentDir) / (Disk.pathOf place).text
  try
    match (← path.symlinkMetadata).type with
    | .dir => return some .directory
    | .symlink => return some (.link ⟨(← IO.FS.realPath path).toString⟩)
    | .file => return some (.file (← IO.FS.readBinFile path))
    | .other => return if path.toString == "/dev/null" then some .sink else none
  catch _ => return none

def addEntry (place : Place) : StateT Snapshot IO Unit := do
  if ((← get).disk.entryAt? place).isNone then
    if let some entry ← entryAt? place then
      modify fun s => { s with disk := s.disk.set place entry }

partial def addTree (place : Place) : StateT Snapshot IO Unit := do
  if !(← get).walked.contains place then
    modify fun s => { s with walked := place :: s.walked }
    for n in List.range place.length do addEntry (place.take (n + 1))
    match (← get).disk.entryAt? place with
    | some .directory =>
      let path := (← IO.currentDir) / (Disk.pathOf place).text
      for child in ← path.readDir do addTree (place ++ [child.fileName])
    | some (.link target) => addTree (placeOf target.text)
    | _ => pure ()

def addPath (path : Path) : StateT Snapshot IO Unit := do
  let absolute := (Disk.pathOf (← get).disk.workingDirectory).join path
  addTree (placeOf absolute.text)
  try addTree (placeOf (← IO.FS.realPath absolute.text).toString)
  catch _ => pure ()

def addInputs (options : Command.Options) : StateT Snapshot IO Unit := do
  if let some file := options.config then addPath file
  if let .ok config := Command.configOf (← get).disk options then
    let sources := [config.models, config.mixins]
    let directories :=
      sources.filterMap (·.directory) ++ (sources.flatMap (·.additional)).map (·.directory)
    addPath config.projectRoot
    for directory in directories do addPath (config.projectRoot.join directory)

def take (options : Command.Options) : IO Disk := do
  let workingDirectory := placeOf (← IO.currentDir).toString
  let start : Snapshot := { disk := { entries := [], workingDirectory }, walked := [] }
  let (_, snapshot) ← (addInputs options).run start
  return snapshot.disk

-- What the system did not let happen, and where.
structure Refusals where
  making : List (Place × DiskError) := []
  opening : List (Place × DiskError) := []
  writing : List (Place × (Nat × DiskError)) := []

namespace Refusals

def holds (refused : Refusals) (place : Place) : Bool :=
  (refused.making.lookup place).isSome || (refused.opening.lookup place).isSome
    || (refused.writing.lookup place).isSome

def faults (refused : Refusals) : Faults where
  making _ place := refused.making.lookup place
  opening _ place := refused.opening.lookup place
  writing _ place _ := refused.writing.lookup place

end Refusals

def faultOf : IO.Error → DiskError
  | .otherError code text | .resourceBusy code text | .resourceVanished code text
  | .unsupportedOperation code text | .hardwareFault code text
  | .unsatisfiedConstraints code text | .illegalOperation code text
  | .protocolError code text | .timeExpired code text
  | .alreadyExists _ code text | .interrupted _ code text | .noFileOrDirectory _ code text
  | .invalidArgument _ code text | .permissionDenied _ code text
  | .resourceExhausted _ code text | .inappropriateType _ code text
  | .noSuchThing _ code text => .system text code.toNat
  | e => .system e.toString 0

def sizeAt (place : Place) : IO Nat := do
  match ← entryAt? place with
  | some (.file contents) => return contents.size
  | _ => return 0

-- Makes what differs from what is there; the answer tells what was refused first.
def putBack (refused : Refusals) (after : Disk) : IO (Option Refusals) := do
  for (place, entry) in after.entries do
    if refused.holds place then continue
    let path := (Disk.pathOf place).text
    match entry, ← entryAt? place with
    | .directory, none =>
      try IO.FS.createDir path
      catch e => return some { refused with making := (place, faultOf e) :: refused.making }
    | .file contents, there =>
      if let some (.file old) := there then
        if contents == old then continue
      match ← (IO.FS.Handle.mk path .write).toBaseIO with
      | .error e => return some { refused with opening := (place, faultOf e) :: refused.opening }
      | .ok handle =>
        try
          handle.write contents
          handle.flush
        catch e =>
          let fault := (← sizeAt place, faultOf e)
          return some { refused with writing := (place, fault) :: refused.writing }
    | _, _ => pure ()
  return none

end Snapshot

-- Whatever is refused, the command runs again from the start and takes it into account.
partial def runAgainst (before : Disk) (run : Disk → Disk × Command.Result)
    (refused : Snapshot.Refusals) : IO Command.Result := do
  let (after, result) := run { before with faults := refused.faults }
  match ← Snapshot.putBack refused after with
  | none => return result
  | some more => runAgainst before run more

def runCommand (arguments : List String) : IO UInt32 := do
  let before ←
    match Command.readArguments arguments with
    | .run options => Snapshot.take options
    | _ => pure Disk.empty
  let id := String.ofList (Nat.toDigits 16 (← IO.monoNanosNow))
  let result ← runAgainst before (Command.run · id arguments) {}
  IO.print result.output
  if let some message := result.error then IO.eprintln message
  return result.exitCode.toUInt32

end SchemaMigration

def main (arguments : List String) : IO UInt32 :=
  SchemaMigration.runCommand arguments
