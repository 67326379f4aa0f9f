import SchemaMigration.Migration.Run
import SchemaMigration.Proofs.CanonicalPaths

set_option autoImplicit false

namespace SchemaMigration

inductive Entry.Becomes : Entry → Entry → Prop where
  | same (e : Entry) : Becomes e e
  | rewritten (old new : ByteArray) : Becomes (.file old) (.file new)

namespace Entry.Becomes

theorem trans {first second third : Entry} (before : Becomes first second)
    (after : Becomes second third) : Becomes first third := by
  cases before with
  | same => exact after
  | rewritten old =>
    cases after with
    | same => exact .rewritten _ _
    | rewritten => exact .rewritten _ _

theorem directory {e : Entry} (becomes : Becomes .directory e) : e = .directory := by
  cases becomes
  rfl

theorem link {e : Entry} {target : Path} (becomes : Becomes (.link target) e) :
    e = .link target := by
  cases becomes
  rfl

theorem sink {e : Entry} (becomes : Becomes .sink e) : e = .sink := by
  cases becomes
  rfl

theorem file {e : Entry} {contents : ByteArray} (becomes : Becomes (.file contents) e) :
    ∃ now, e = .file now := by
  cases becomes with
  | same => exact ⟨contents, rfl⟩
  | rewritten _ now => exact ⟨now, rfl⟩

end Entry.Becomes

def Target.place : Target → Place
  | .existing place => place
  | .absent place => place

namespace Disk

structure Keeps (d next : Disk) : Prop where
  workingDirectory : next.workingDirectory = d.workingDirectory
  entry : ∀ place e, d.entryAt? place = some e →
    ∃ now, next.entryAt? place = some now ∧ e.Becomes now

def SameFile (d next : Disk) (place : Place) : Prop :=
  ∀ contents, next.entryAt? place = some (.file contents) ↔ d.entryAt? place = some (.file contents)

theorem Keeps.refl (d : Disk) : d.Keeps d :=
  ⟨rfl, fun _ e held => ⟨e, held, .same e⟩⟩

theorem Keeps.trans {first second third : Disk} (before : first.Keeps second)
    (after : second.Keeps third) : first.Keeps third := by
  refine ⟨after.workingDirectory.trans before.workingDirectory, ?_⟩
  intro place e held
  obtain ⟨middle, found, becomes⟩ := before.entry place e held
  obtain ⟨last, there, later⟩ := after.entry place middle found
  exact ⟨last, there, becomes.trans later⟩

theorem SameFile.trans {first second third : Disk} {place : Place}
    (before : first.SameFile second place) (after : second.SameFile third place) :
    first.SameFile third place :=
  fun contents => (after contents).trans (before contents)

section Set

variable {d : Disk} {place : Place} {e : Entry}

theorem lookup_setEntry (entries : List (Place × Entry)) (place other : Place) (e : Entry) :
    (setEntry place e entries).lookup other =
      if other = place then some e else entries.lookup other := by
  induction entries with
  | nil =>
    simp only [setEntry, List.lookup_cons, List.lookup_nil]
    by_cases same : other = place
    · simp [same]
    · simp [same, beq_eq_false_iff_ne.mpr same]
  | cons first rest ih =>
    obtain ⟨p, old⟩ := first
    rw [setEntry]
    by_cases here : p = place
    · subst here
      by_cases same : other = p
      · simp [same]
      · simp [List.lookup_cons, same, beq_eq_false_iff_ne.mpr same]
    · by_cases found : other = p
      · simp [found, here]
      · simp [here, List.lookup_cons, beq_eq_false_iff_ne.mpr found, ih]

theorem entryAt?_set (d : Disk) (filled : place ≠ []) (e : Entry) (other : Place) :
    (d.set place e).entryAt? other = if other = place then some e else d.entryAt? other := by
  rw [entryAt?, entryAt?, set, lookup_setEntry]
  by_cases root : other = []
  · simp [root, Ne.symm filled]
  · simp [root]

theorem ne_nil_of_entryAt? (place : Place) (e : Entry) (held : d.entryAt? place = some e)
    (notDirectory : e ≠ .directory) : place ≠ [] := by
  rintro rfl
  rw [entryAt?, List.isEmpty_nil, if_pos rfl, Option.some.injEq] at held
  exact notDirectory held.symm

theorem keeps_set (filled : place ≠ [])
    (becomes : ∀ old, d.entryAt? place = some old → old.Becomes e) : d.Keeps (d.set place e) := by
  refine ⟨rfl, ?_⟩
  intro other old held
  rw [entryAt?_set d filled]
  by_cases same : other = place
  · rw [if_pos same]
    exact ⟨e, rfl, becomes old (same ▸ held)⟩
  · rw [if_neg same]
    exact ⟨old, held, .same old⟩

theorem sameFile_set {other : Place} (filled : place ≠ []) (apart : other ≠ place) :
    d.SameFile (d.set place e) other := by
  intro contents
  rw [entryAt?_set d filled, if_neg apart]

end Set

section Walk

variable {d next : Disk} {followLast : Bool}

section Steps

variable {onLink : Place → List String → Except DiskError Target} {place : Place} {piece : String}
  {rest : List String} (inside : d.isDirectoryAt place = true)
  (filled : ¬(piece == "" || piece == ".") = true)

include inside in
theorem walkWith_blank (blank : (piece == "" || piece == ".") = true) :
    d.walkWith onLink followLast place (piece :: rest) =
      d.walkWith onLink followLast place rest := by
  simp [walkWith, inside, blank]

include inside filled in
theorem walkWith_up (up : (piece == "..") = true) :
    d.walkWith onLink followLast place (piece :: rest) =
      d.walkWith onLink followLast place.dropLast rest := by
  simp [walkWith, inside, filled, up]

variable (down : ¬(piece == "..") = true)

include inside filled down in
theorem walkWith_link {target : Path} (held : d.entryAt? (place ++ [piece]) = some (.link target)) :
    d.walkWith onLink followLast place (piece :: rest) =
      if rest.isEmpty && !followLast then .ok (.existing (place ++ [piece]))
      else onLink (if target.isAbsolute then [] else place) (piecesOf target ++ rest) := by
  simp [walkWith, inside, filled, down, held]

include inside filled down in
theorem walkWith_entry {e : Entry} (held : d.entryAt? (place ++ [piece]) = some e)
    (plain : ∀ target, e ≠ .link target) :
    d.walkWith onLink followLast place (piece :: rest) =
      d.walkWith onLink followLast (place ++ [piece]) rest := by
  cases e with
  | link target => exact absurd rfl (plain target)
  | file | directory | sink => simp [walkWith, inside, filled, down, held]

end Steps

def Fills (next : Disk) : Target → Prop
  | .existing _ => True
  | .absent place => ∃ contents, next.entryAt? place = some (.file contents)

def Follows (next : Disk) (walk later : Place → List String → Except DiskError Target) : Prop :=
  ∀ place pieces target, walk place pieces = .ok target → next.Fills target →
    later place pieces = .ok (.existing target.place)

theorem Keeps.isDirectoryAt (keeps : d.Keeps next) {place : Place}
    (directory : d.isDirectoryAt place = true) : next.isDirectoryAt place = true := by
  rw [Disk.isDirectoryAt] at directory
  split at directory
  next held =>
    obtain ⟨now, found, becomes⟩ := keeps.entry place _ held
    rw [Disk.isDirectoryAt, found, becomes.directory]
  next => cases directory

theorem Keeps.walkWith (keeps : d.Keeps next)
    {onLink later : Place → List String → Except DiskError Target}
    (follows : next.Follows onLink later) :
    next.Follows (d.walkWith onLink followLast) (next.walkWith later followLast) := by
  intro place pieces target walked fills
  fun_induction Disk.walkWith d onLink followLast place pieces with
  | case1 =>
    cases walked
    rfl
  | case2 | case6 => cases walked
  | case3 place piece rest directory blank ih =>
    have inside := keeps.isDirectoryAt (by simpa using directory)
    exact (walkWith_blank inside blank).trans (ih walked)
  | case4 place piece rest directory filled up ih =>
    have inside := keeps.isDirectoryAt (by simpa using directory)
    exact (walkWith_up inside filled up).trans (ih walked)
  | case5 place piece rest directory filled down there absent last =>
    -- The walk ended where nothing was, and a file stands there now.
    have inside := keeps.isDirectoryAt (by simpa using directory)
    cases walked
    obtain ⟨contents, found⟩ := fills
    rw [List.isEmpty_iff.mp last]
    exact walkWith_entry inside filled down found (by rintro _ ⟨⟩)
  | case7 place piece rest directory filled down there linked held last =>
    have inside := keeps.isDirectoryAt (by simpa using directory)
    obtain ⟨now, found, becomes⟩ := keeps.entry _ _ held
    cases walked
    exact (walkWith_link inside filled down (becomes.link ▸ found)).trans (if_pos last)
  | case8 place piece rest directory filled down there linked held last =>
    have inside := keeps.isDirectoryAt (by simpa using directory)
    obtain ⟨now, found, becomes⟩ := keeps.entry _ _ held
    exact (walkWith_link inside filled down (becomes.link ▸ found)).trans
      ((if_neg last).trans (follows _ _ _ walked fills))
  | case9 place piece rest directory filled down there e plain held ih =>
    have inside := keeps.isDirectoryAt (by simpa using directory)
    obtain ⟨now, found, becomes⟩ := keeps.entry _ _ held
    refine (walkWith_entry inside filled down found ?_).trans (ih walked)
    cases becomes with
    | same => exact fun target link => plain target link
    | rewritten => rintro _ ⟨⟩

theorem Keeps.walk (keeps : d.Keeps next) (links : Nat) :
    next.Follows (d.walk followLast links) (next.walk followLast links) := by
  induction links with
  | zero => exact keeps.walkWith fun _ _ _ walked => nomatch walked
  | succ links ih => exact keeps.walkWith ih

theorem Keeps.find (keeps : d.Keeps next) {p : Path} {target : Target}
    (located : d.locate true p = .ok target) (fills : next.Fills target) :
    next.find p = .ok target.place := by
  rw [Disk.find, Disk.locate]
  rw [Disk.locate] at located
  split at located
  · cases located
  next proper =>
    split at located
    · cases located
    next filled =>
      rw [if_neg proper, if_neg filled, keeps.workingDirectory,
        keeps.walk maxLinks _ _ target located fills]

theorem Keeps.find_of_find (keeps : d.Keeps next) {p : Path} {place : Place}
    (found : d.find p = .ok place) : next.find p = .ok place := by
  rw [Disk.find] at found
  split at found
  next located =>
    cases found
    exact keeps.find located trivial
  next => cases found
  next => cases found

theorem walkWith_absent {onLink : Place → List String → Except DiskError Target}
    (links : ∀ place pieces found, onLink place pieces = .ok (.absent found) →
      found ≠ [] ∧ d.entryAt? found = none) {place : Place} {pieces : List String} {found : Place}
    (walked : d.walkWith onLink followLast place pieces = .ok (.absent found)) :
    found ≠ [] ∧ d.entryAt? found = none := by
  fun_induction Disk.walkWith d onLink followLast place pieces with
  | case1 | case2 | case6 | case7 => cases walked
  | case3 _ _ _ _ _ ih => exact ih walked
  | case4 _ _ _ _ _ _ ih => exact ih walked
  | case5 place piece rest _ _ _ there absent =>
    rw [Except.ok.injEq, Target.absent.injEq] at walked
    rw [← walked]
    exact ⟨by simp [there], absent⟩
  | case8 => exact links _ _ _ walked
  | case9 _ _ _ _ _ _ _ _ _ _ ih => exact ih walked

theorem walk_absent (links : Nat) {place : Place} {pieces : List String} {found : Place}
    (walked : d.walk followLast links place pieces = .ok (.absent found)) :
    found ≠ [] ∧ d.entryAt? found = none := by
  induction links generalizing place pieces found with
  | zero => exact walkWith_absent (by rintro _ _ _ ⟨⟩) walked
  | succ links ih => exact walkWith_absent (fun _ _ _ => ih) walked

theorem locate_absent {p : Path} {found : Place}
    (located : d.locate followLast p = .ok (.absent found)) :
    found ≠ [] ∧ d.entryAt? found = none := by
  rw [locate] at located
  split at located
  · cases located
  · split at located
    · cases located
    · exact walk_absent maxLinks located

end Walk

structure KeepsFiles (d next : Disk) : Prop where
  keeps : d.Keeps next
  files : ∀ place, d.SameFile next place

structure Writes (d next : Disk) (p : Path) (contents : ByteArray) (place : Place) : Prop where
  keeps : d.Keeps next
  found : next.find p = .ok place
  written : next.entryAt? place = some (.file contents)
  others : ∀ other, other ≠ place → d.SameFile next other

-- All that writing a text can do, with the place that was opened and the fault.
inductive Effect (d next : Disk) (p : Path) (text : String) :
    Option Place → Option DiskError → Prop where
  | refused (e : DiskError) (kept : d.KeepsFiles next) : Effect d next p text none (some e)
  | dropped {place : Place} (kept : d.KeepsFiles next) (found : next.find p = .ok place)
      (device : next.entryAt? place = some .sink) : Effect d next p text (some place) none
  | stored {place : Place} (writes : d.Writes next p text.toUTF8 place) :
      Effect d next p text (some place) none
  | cut {place : Place} {e : DiskError} {size : Nat}
      (writes : d.Writes next p (text.toUTF8.extract 0 size) place) :
      Effect d next p text (some place) (some e)

section Operations

variable {d next last : Disk} {p : Path} {text : String} {place : Place} {contents : ByteArray}

theorem KeepsFiles.refl (d : Disk) : d.KeepsFiles d :=
  ⟨.refl d, fun _ _ => Iff.rfl⟩

theorem KeepsFiles.trans (before : d.KeepsFiles next) (after : next.KeepsFiles last) :
    d.KeepsFiles last :=
  ⟨before.keeps.trans after.keeps, fun place => (before.files place).trans (after.files place)⟩

theorem KeepsFiles.writes (before : d.KeepsFiles next)
    (after : next.Writes last p contents place) : d.Writes last p contents place :=
  ⟨before.keeps.trans after.keeps, after.found, after.written,
    fun other apart => (before.files other).trans (after.others other apart)⟩

theorem KeepsFiles.effect (before : d.KeepsFiles next) {opened? : Option Place}
    {fault? : Option DiskError} (after : next.Effect last p text opened? fault?) :
    d.Effect last p text opened? fault? := by
  cases after with
  | refused e kept => exact .refused e (before.trans kept)
  | dropped kept found device => exact .dropped (before.trans kept) found device
  | stored writes => exact .stored (before.writes writes)
  | cut writes => exact .cut (before.writes writes)

theorem Effect.keeps {opened? : Option Place} {fault? : Option DiskError}
    (effect : d.Effect next p text opened? fault?) : d.Keeps next := by
  cases effect with
  | refused _ kept | dropped kept => exact kept.keeps
  | stored writes | cut writes => exact writes.keeps

theorem keepsFiles_ensureDirectory (ensured : d.ensureDirectory p = .ok next) :
    d.KeepsFiles next := by
  rw [ensureDirectory, makeDirectory] at ensured
  split at ensured
  next made done =>
    split at done
    next place located =>
      split at done <;> cases done
      cases ensured
      obtain ⟨filled, absent⟩ := locate_absent located
      refine ⟨keeps_set filled (by simp [absent]), ?_⟩
      intro other contents
      rw [entryAt?_set d filled]
      split
      next same => simp [same, absent]
      next => rfl
    next => cases done
    next => cases done
  next =>
    split at ensured <;> cases ensured
    exact .refl d

theorem keepsFiles_makeDirectories (d : Disk) (fuel : Nat) (p : Path) :
    d.KeepsFiles (d.makeDirectories fuel p).1 := by
  induction fuel generalizing p with
  | zero => exact .refl d
  | succ fuel ih =>
    rw [makeDirectories]
    split
    next => exact .refl d
    next =>
      split
      next done => exact keepsFiles_ensureDirectory done
      next =>
        -- The directories above come first.
        split
        next => exact .refl d
        next above _ =>
          have made := ih above
          split
          next all =>
            rw [all] at made
            split
            next done => exact made.trans (keepsFiles_ensureDirectory done)
            next => exact made
          next some => rwa [some] at made
      next => exact .refl d

theorem writes_set {target : Target} (located : d.locate true p = .ok target)
    (filled : target.place ≠ [])
    (becomes : ∀ old, d.entryAt? target.place = some old → old.Becomes (.file contents)) :
    d.Writes (d.set target.place (.file contents)) p contents target.place := by
  have keeps := keeps_set filled becomes
  have written : (d.set target.place (.file contents)).entryAt? target.place =
      some (.file contents) := by
    rw [entryAt?_set d filled, if_pos rfl]
  refine ⟨keeps, keeps.find located ?_, written, fun other apart => sameFile_set filled apart⟩
  cases target with
  | existing => trivial
  | absent => exact ⟨_, written⟩

theorem eq_of_openAt {opened : Place} (done : d.openAt place = .ok opened) : place = opened := by
  rw [openAt] at done
  split at done
  next => cases done
  next => exact Except.ok.inj done

theorem openForWriting_cases (opened : d.openForWriting p = .ok place) :
    d.find p = .ok place ∧ d.entryAt? place = some .sink ∨
      d.entryAt? place ≠ some .sink ∧
        ∀ contents, d.Writes (d.set place (.file contents)) p contents place := by
  simp only [openForWriting] at opened
  split at opened
  next => cases opened
  next located =>
    obtain rfl := eq_of_openAt opened
    obtain ⟨filled, absent⟩ := locate_absent located
    refine .inr ⟨by simp [absent], fun contents => ?_⟩
    exact writes_set located filled (by simp [Target.place, absent])
  next located =>
    split at opened
    next old held =>
      obtain rfl := eq_of_openAt opened
      refine .inr ⟨by simp [held], fun contents => ?_⟩
      refine writes_set located (ne_nil_of_entryAt? _ _ held nofun) ?_
      rintro _ there
      cases held.symm.trans there
      exact .rewritten _ _
    next held =>
      obtain rfl := eq_of_openAt opened
      exact .inl ⟨by rw [find, located], held⟩
    next => cases opened

theorem effect_writeText (d : Disk) (p : Path) (text : String) :
    d.Effect (d.writeText p text).1 p text (d.openForWriting p).toOption
      (d.writeText p text).2 := by
  rw [writeText]
  cases opened : d.openForWriting p with
  | error e => exact .refused e (.refl d)
  | ok place =>
    dsimp only [Except.toOption]
    rw [store]
    rcases openForWriting_cases opened with ⟨found, device⟩ | ⟨notDevice, writes⟩
    · rw [device]
      exact .dropped (.refl d) found device
    · split
      next device => exact absurd device notDevice
      next =>
        split
        next => exact .stored (writes _)
        next => exact .cut (writes _)

theorem writes_writeText (saved : d.writeText p text = (next, none))
    (regular : next.isFile p = true) : ∃ place, d.Writes next p text.toUTF8 place := by
  have effect := effect_writeText d p text
  rw [saved] at effect
  generalize (d.openForWriting p).toOption = opened? at effect
  cases effect with
  | stored writes => exact ⟨_, writes⟩
  | dropped _ found device => simp [isFile, stat?, found, device] at regular

def opened? (d : Disk) (a : Artifact) : Option Place :=
  match d.createDirectories a.directory with
  | (made, none) => (made.openForWriting a.path).toOption
  | (_, some _) => none

theorem effect_writeArtifact (d : Disk) (a : Artifact) :
    d.Effect (d.writeArtifact a).1 a.path a.code (d.opened? a) (d.writeArtifact a).2 := by
  have kept : d.KeepsFiles (d.createDirectories a.directory).1 :=
    keepsFiles_makeDirectories d _ a.directory
  rcases above : d.createDirectories a.directory with ⟨made, _ | e⟩
  · rw [above] at kept
    simp only [writeArtifact, opened?, above]
    exact kept.effect (effect_writeText made a.path a.code)
  · rw [above] at kept
    simp only [writeArtifact, opened?, above]
    exact .refused e kept

theorem readText_of_find (found : d.find p = .ok place)
    (held : d.entryAt? place = some (.file text.toUTF8)) : d.readText p = .ok text := by
  have decoded : String.fromUTF8? text.toUTF8 = some text := by
    exact dif_pos text.isValidUTF8
  simp only [readText, found, held, decoded]

end Operations

end Disk

end SchemaMigration
