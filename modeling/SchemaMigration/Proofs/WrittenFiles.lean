import SchemaMigration.Proofs.References

set_option autoImplicit false

namespace SchemaMigration

structure Attempt where
  before : Disk
  artifact : Artifact

namespace Attempt

def after (t : Attempt) : Disk := (t.before.writeArtifact t.artifact).1

def fault? (t : Attempt) : Option DiskError := (t.before.writeArtifact t.artifact).2

def opened? (t : Attempt) : Option Place := t.before.opened? t.artifact

def along (d : Disk) : List Artifact → List Attempt
  | [] => []
  | a :: rest => ⟨d, a⟩ :: along (d.writeArtifact a).1 rest

def opening (attempts : List Attempt) : List Attempt := attempts.filter (·.opened?.isSome)

def recorded (attempts : List Attempt) : List Attempt := attempts.filter (·.fault?.isNone)

abbrev Effect (t : Attempt) : Prop :=
  t.before.Effect t.after t.artifact.path t.artifact.code t.opened? t.fault?

theorem effect (t : Attempt) : t.Effect :=
  Disk.effect_writeArtifact t.before t.artifact

inductive Leaves (t : Attempt) : Entry → Prop where
  | whole (written : t.fault? = none) : Leaves t (.file t.artifact.code.toUTF8)
  | beginning {e : DiskError} (failed : t.fault? = some e) (size : Nat) :
      Leaves t (.file (t.artifact.code.toUTF8.extract 0 size))
  | nothing (written : t.fault? = none) : Leaves t .sink

structure Opens (t : Attempt) (place : Place) (entry : Entry) : Prop where
  found : t.after.find t.artifact.path = .ok place
  held : t.after.entryAt? place = some entry
  leaves : t.Leaves entry
  others : ∀ other, other ≠ place → t.before.SameFile t.after other

theorem opens_of_opened? {t : Attempt} {place : Place} (opened : t.opened? = some place) :
    ∃ entry, t.Opens place entry := by
  have effect := t.effect
  rw [Effect, opened] at effect
  generalize outcome : t.fault? = fault? at effect
  cases effect with
  | dropped kept found device =>
    exact ⟨_, found, device, .nothing outcome, fun other _ => kept.files other⟩
  | stored writes => exact ⟨_, writes.found, writes.written, .whole outcome, writes.others⟩
  | cut writes => exact ⟨_, writes.found, writes.written, .beginning outcome _, writes.others⟩

theorem kept_of_opened? {t : Attempt} (refused : t.opened? = none) :
    t.fault?.isSome = true ∧ t.before.KeepsFiles t.after := by
  have effect := t.effect
  rw [Effect, refused] at effect
  generalize t.fault? = fault? at effect ⊢
  cases effect with
  | refused e kept => exact ⟨rfl, kept⟩

theorem Leaves.stays {t : Attempt} {entry : Entry} (leaves : t.Leaves entry) {d last : Disk}
    {place : Place} (held : d.entryAt? place = some entry) (keeps : d.Keeps last)
    (same : d.SameFile last place) : last.entryAt? place = some entry := by
  cases leaves with
  | whole | beginning => exact (same _).mpr held
  | nothing =>
    obtain ⟨now, there, becomes⟩ := keeps.entry place _ held
    rw [there, becomes.sink]

end Attempt

open Attempt

inductive Chained : Disk → List Attempt → Disk → Prop where
  | nil (d : Disk) : Chained d [] d
  | cons {t : Attempt} {rest : List Attempt} {last : Disk} (later : Chained t.after rest last) :
      Chained t.before (t :: rest) last

structure LastLeading (d : Disk) (attempts : List Attempt) (place : Place) (t : Attempt) :
    Prop where
  leads : d.find t.artifact.path = .ok place
  last : ∃ earlier later, attempts = earlier ++ t :: later ∧
    ∀ u ∈ later, d.find u.artifact.path ≠ .ok place

theorem LastLeading.cons {d : Disk} {attempts : List Attempt} {place : Place} {t : Attempt}
    (leading : LastLeading d attempts place t) (u : Attempt) :
    LastLeading d (u :: attempts) place t := by
  obtain ⟨leads, earlier, later, split, others⟩ := leading
  exact ⟨leads, u :: earlier, later, by rw [split, List.cons_append], others⟩

namespace Chained

variable {d middle last : Disk} {first second attempts : List Attempt}

theorem append (before : Chained d first middle) (after : Chained middle second last) :
    Chained d (first ++ second) last := by
  induction before with
  | nil => exact after
  | cons _ ih => exact .cons (ih after)

theorem keeps (chained : Chained d attempts last) : d.Keeps last := by
  induction chained with
  | nil d => exact .refl d
  | @cons t _ _ _ ih => exact t.effect.keeps.trans ih

theorem leads (chained : Chained d attempts last) {t : Attempt} (member : t ∈ attempts)
    {place : Place} (opened : t.opened? = some place) :
    last.find t.artifact.path = .ok place := by
  induction chained with
  | nil => cases member
  | cons later ih =>
    rcases List.mem_cons.mp member with rfl | member
    · obtain ⟨entry, opens⟩ := opens_of_opened? opened
      exact later.keeps.find_of_find opens.found
    · exact ih member

-- One attempt changes one place; what is there at the end is from the last one that led there.
theorem entry_at (chained : Chained d attempts last) (place : Place) :
    (∀ t ∈ opening attempts, last.find t.artifact.path ≠ .ok place) ∧ d.SameFile last place ∨
      ∃ t entry, LastLeading last (opening attempts) place t ∧
        last.entryAt? place = some entry ∧ t.Leaves entry := by
  induction chained with
  | nil => exact .inl ⟨by simp [opening], fun _ => Iff.rfl⟩
  | @cons t rest last later ih =>
    cases opened : t.opened? with
    | none =>
      have others : opening (t :: rest) = opening rest := by simp [opening, opened]
      rw [others]
      rcases ih with ⟨none, unchanged⟩ | found
      · exact .inl ⟨none, ((kept_of_opened? opened).2.files place).trans unchanged⟩
      · exact .inr found
    | some own =>
      have more : opening (t :: rest) = t :: opening rest := by simp [opening, opened]
      obtain ⟨entry, opens⟩ := opens_of_opened? opened
      have leads : last.find t.artifact.path = .ok own := later.keeps.find_of_find opens.found
      rw [more]
      rcases ih with ⟨none, unchanged⟩ | ⟨u, entry, leading, held, leaves⟩
      · by_cases here : place = own
        · subst here
          exact .inr ⟨t, entry, ⟨leads, [], opening rest, rfl, none⟩,
            opens.leaves.stays opens.held later.keeps unchanged, opens.leaves⟩
        · refine .inl ⟨List.forall_mem_cons.mpr ⟨?_, none⟩,
            (opens.others place here).trans unchanged⟩
          intro there
          exact here (Except.ok.inj (there.symm.trans leads))
      · exact .inr ⟨u, entry, leading.cons t, held, leaves⟩

end Chained

inductive Attempt.ReadBack (t : Attempt) (last : Disk) (p : Path) (place : Place) : Prop where
  | whole (written : t.fault? = none) (reads : last.readText p = .ok t.artifact.code)
  | beginning {e : DiskError} {size : Nat} (failed : t.fault? = some e)
      (held : last.entryAt? place = some (.file (t.artifact.code.toUTF8.extract 0 size)))
  | nothing (device : last.entryAt? place = some .sink) (reads : last.readText p = .ok "")

structure WrittenOut (d last : Disk) (attempts : List Attempt) : Prop where
  chained : Chained d attempts last
  readsBack : ∀ t ∈ recorded attempts, ∃ place u, last.find t.artifact.path = .ok place ∧
    LastLeading last (opening attempts) place u ∧ u.ReadBack last t.artifact.path place
  untouched : ∀ place, (∀ t ∈ opening attempts, last.find t.artifact.path ≠ .ok place) →
    d.SameFile last place
  -- No file, directory or link is taken away, and only files change.
  kept : d.Keeps last
  -- A failure before the file is opened changes no file, and one after that no other file.
  effects : ∀ t ∈ attempts, t.Effect

theorem Attempt.Leaves.readBack {t : Attempt} {entry : Entry} (leaves : t.Leaves entry)
    {last : Disk} {p : Path} {place : Place} (found : last.find p = .ok place)
    (held : last.entryAt? place = some entry) : t.ReadBack last p place := by
  cases leaves with
  | whole written => exact .whole written (Disk.readText_of_find found held)
  | beginning failed => exact .beginning failed held
  | nothing => exact .nothing held (by simp only [Disk.readText, found, held])

theorem Chained.writtenOut {d last : Disk} {attempts : List Attempt}
    (chained : Chained d attempts last) : WrittenOut d last attempts where
  chained
  readsBack t member := by
    obtain ⟨member, written⟩ := List.mem_filter.mp member
    obtain ⟨own, opened⟩ : ∃ own, t.opened? = some own := by
      cases opened : t.opened? with
      | some own => exact ⟨own, rfl⟩
      | none =>
        obtain ⟨e, failed⟩ := Option.isSome_iff_exists.mp (kept_of_opened? opened).1
        simp [failed] at written
    have found := chained.leads member opened
    rcases chained.entry_at own with ⟨none, -⟩ | ⟨u, entry, leading, held, leaves⟩
    · exact absurd found (none t (List.mem_filter.mpr ⟨member, by simp [opened]⟩))
    · exact ⟨own, u, found, leading, leaves.readBack found held⟩
  untouched place none := by
    rcases chained.entry_at place with ⟨-, same⟩ | ⟨u, -, ⟨leads, earlier, later, split, -⟩, -, -⟩
    · exact same
    · exact absurd leads (none u (by simp [split]))
  kept := chained.keeps
  effects t _ := t.effect

namespace Context

variable {ctx : Context} {d : Disk}

def attempts (ctx : Context) (d : Disk) : List Attempt :=
  (ctx.visits d).flatMap fun v =>
    along v.before.disk ((v.given ctx (ctx.prepare d)).map Prod.fst)

theorem giveOut_real (real : ctx.dryRun = false) (d : Disk) (artifacts : List Artifact) :
    (ctx.giveOut d artifacts).2 = (along d artifacts).map (fun t => (t.artifact, t.fault?)) ∧
      Chained d (along d artifacts) (ctx.giveOut d artifacts).1 := by
  induction artifacts generalizing d with
  | nil => exact ⟨rfl, .nil d⟩
  | cons a rest ih =>
    obtain ⟨given, chained⟩ := ih (d.writeArtifact a).1
    simp only [giveOut, real, Bool.false_eq_true, if_false, given, along, List.map_cons]
    exact ⟨rfl, .cons (t := ⟨d, a⟩) chained⟩

theorem given_real (real : ctx.dryRun = false) (v : Visit) (prepared : Prepared) :
    v.given ctx prepared = (along v.before.disk ((v.given ctx prepared).map Prod.fst)).map
      (fun t => (t.artifact, t.fault?)) := by
  rw [Visit.given]
  cases v.verdict ctx prepared with
  | unread | skip => rfl
  | generate plan =>
    dsimp only
    rw [giveOut_artifacts]
    exact (giveOut_real real _ _).1

theorem chained_visit (real : ctx.dryRun = false) (v : Visit) (prepared : Prepared) :
    Chained v.before.disk (along v.before.disk ((v.given ctx prepared).map Prod.fst))
      (v.after ctx prepared).disk := by
  rw [Visit.after_disk, Visit.given]
  cases v.verdict ctx prepared with
  | unread | skip => exact .nil _
  | generate plan =>
    dsimp only
    rw [giveOut_artifacts]
    exact (giveOut_real real _ _).2

theorem chained_along (real : ctx.dryRun = false) (prepared : Prepared) (state : RunState)
    (agenda : List (Role × Path)) :
    Chained state.disk
      ((Visit.along ctx prepared state agenda).flatMap fun v =>
        along v.before.disk ((v.given ctx prepared).map Prod.fst))
      (Visit.final ctx prepared state agenda).disk := by
  induction agenda generalizing state with
  | nil => exact .nil _
  | cons entry rest ih =>
    have here := chained_visit real ⟨entry.1, entry.2, state⟩ prepared
    exact here.append (ih _)

theorem chained_migrate (real : ctx.dryRun = false) (d : Disk) :
    Chained d (ctx.attempts d) (migrate ctx d).1 := by
  rw [migrate_eq_visits]
  exact chained_along real (ctx.prepare d) (RunState.start d (ctx.prepare d)) _

theorem recorded_attempts (real : ctx.dryRun = false) (d : Disk) :
    (recorded (ctx.attempts d)).map Attempt.artifact = (ctx.emissions d).map Emission.artifact := by
  have visit (v : Visit) :
      ((along v.before.disk ((v.given ctx (ctx.prepare d)).map Prod.fst)).filter
        (·.fault?.isNone)).map Attempt.artifact = v.emitted ctx (ctx.prepare d) := by
    conv_rhs => rw [Visit.emitted, given_real real v (ctx.prepare d), emittedOf, List.filter_map,
      List.map_map]
    rfl
  rw [attempts, recorded, emissions, List.filter_flatMap, List.map_flatMap, List.map_flatMap]
  congr
  funext v
  rw [visit, List.map_map]
  exact (List.map_id _).symm

end Context

theorem migrate_writes_reported {ctx : Context} (real : ctx.dryRun = false) (d : Disk) :
    (migrate ctx d).2.artifacts.map (fun r => (r.kind, r.name, r.path)) =
      (recorded (ctx.attempts d)).map
        (fun t => (t.artifact.kind, t.artifact.name, ctx.display t.artifact.path)) ∧
    WrittenOut d (migrate ctx d).1 (ctx.attempts d) := by
  refine ⟨?_, (Context.chained_migrate real d).writtenOut⟩
  have listed := congrArg (List.map fun a => (a.kind, a.name, ctx.display a.path))
    (Context.recorded_attempts real d)
  rw [List.map_map, List.map_map] at listed
  exact (artifacts_eq_emissions ctx d).trans listed.symm

-- Two bases of models of one name; a directory stands where their interfaces are to go, and there
-- is no room to write a file anew.
def blockedDisk : Disk where
  entries := [
    (["a"], .directory),
    (["a", "user.ts"], .file "export default class{}".toUTF8),
    (["b"], .directory),
    (["b", "user.ts"], .file "export default class{@attr n}".toUTF8),
    (["app"], .directory),
    (["app", "data"], .link ⟨"../b"⟩),
    (["b", "traits"], .directory),
    (["b", "traits", "user.schema.types.ts"], .directory)]
  workingDirectory := []
  faults := { writing := fun entries place _ => (entries.lookup place).map fun _ => (3, .noSpace) }

def blockedConfig : Config where
  projectRoot := ⟨"/"⟩
  mixins := { directory := some ⟨"x"⟩ }
  intermediateModels := ["./a/user", "./b/user"]

theorem blocked_attempts :
    ((Context.ofConfig blockedDisk blockedConfig).toOption.any fun ctx =>
      !ctx.dryRun && (ctx.attempts blockedDisk).map (fun t => (t.artifact.path.text, t.fault?)) ==
        [("/app/data/traits/user.schema.ts", none),
         ("/app/data/traits/user.schema.types.ts", some .isADirectory),
         ("/app/data/traits/user.schema.ts", some .noSpace),
         ("/app/data/traits/user.schema.types.ts", some .isADirectory)]) = true := by
  decide +kernel

theorem migrate_writes_reported_blocked :
    ∃ ctx, Context.ofConfig blockedDisk blockedConfig = .ok ctx ∧ ctx.dryRun = false ∧
      (ctx.attempts blockedDisk).map (fun t => (t.artifact.path.text, t.fault?)) =
        [("/app/data/traits/user.schema.ts", none),
         ("/app/data/traits/user.schema.types.ts", some .isADirectory),
         ("/app/data/traits/user.schema.ts", some .noSpace),
         ("/app/data/traits/user.schema.types.ts", some .isADirectory)] ∧
      WrittenOut blockedDisk (migrate ctx blockedDisk).1 (ctx.attempts blockedDisk) := by
  obtain ⟨ctx, built, checked⟩ := Context.exists_ofConfig blocked_attempts
  rw [Bool.and_eq_true, Bool.not_eq_true', beq_iff_eq] at checked
  exact ⟨ctx, built, checked.1, checked.2, (migrate_writes_reported checked.1 blockedDisk).2⟩

def modelConfig : Config where
  projectRoot := ⟨"/"⟩
  models := { directory := some ⟨"m"⟩ }

def outputPath : Path := ⟨"/app/data/resources/u.schema.js"⟩

def occupiedDisk (entry : Entry) (faults : Faults) : Disk where
  entries := [
    (["m"], .directory),
    (["m", "u.js"], .file "export default class{}".toUTF8),
    (["app"], .directory),
    (["app", "data"], .directory),
    (["app", "data", "resources"], .directory),
    (["app", "data", "resources", "u.schema.js"], entry)]
  workingDirectory := []
  faults

def fullDisk : Disk :=
  occupiedDisk (.file "old".toUTF8) { writing := fun _ _ _ => some (0, .noSpace) }

def deviceDisk : Disk := occupiedDisk .sink {}

theorem fullDisk_emptied :
    ((Context.ofConfig fullDisk modelConfig).toOption.any fun ctx =>
      !ctx.dryRun && (migrate ctx fullDisk).2.artifacts.isEmpty &&
        ((migrate ctx fullDisk).1.readText outputPath).toOption == some "") = true := by
  decide +kernel

theorem deviceDisk_unwritten :
    ((Context.ofConfig deviceDisk modelConfig).toOption.any fun ctx =>
      !ctx.dryRun && (ctx.attempts deviceDisk).map
          (fun t => (t.artifact.path.text, t.fault?, t.artifact.code.isEmpty)) ==
            [(outputPath.text, none, false)] &&
        ((migrate ctx deviceDisk).1.readText outputPath).toOption == some "") = true := by
  decide +kernel

theorem migrate_alters_unreported :
    (∃ ctx, Context.ofConfig fullDisk modelConfig = .ok ctx ∧ ctx.dryRun = false ∧
      (migrate ctx fullDisk).2.artifacts = [] ∧
      (fullDisk.readText outputPath).toOption = some "old" ∧
      ((migrate ctx fullDisk).1.readText outputPath).toOption = some "") ∧
    ∃ ctx, Context.ofConfig deviceDisk modelConfig = .ok ctx ∧ ctx.dryRun = false ∧
      (ctx.attempts deviceDisk).map
          (fun t => (t.artifact.path.text, t.fault?, t.artifact.code.isEmpty)) =
        [(outputPath.text, none, false)] ∧
      ((migrate ctx deviceDisk).1.readText outputPath).toOption = some "" := by
  obtain ⟨full, fullBuilt, emptied⟩ := Context.exists_ofConfig fullDisk_emptied
  obtain ⟨device, deviceBuilt, unwritten⟩ := Context.exists_ofConfig deviceDisk_unwritten
  simp only [Bool.and_eq_true, Bool.not_eq_true', beq_iff_eq, List.isEmpty_iff] at emptied unwritten
  exact ⟨⟨full, fullBuilt, emptied.1.1, emptied.1.2, by decide +kernel, emptied.2⟩,
    device, deviceBuilt, unwritten.1.1, unwritten.1.2, unwritten.2⟩

end SchemaMigration
