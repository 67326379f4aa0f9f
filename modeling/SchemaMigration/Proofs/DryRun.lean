import SchemaMigration.Proofs.References

set_option autoImplicit false

namespace SchemaMigration

namespace Visit

variable {ctx : Context} {prepared : Prepared}

theorem after_dry (prepared : Prepared) (dry : ctx.dryRun = true) (v : Visit) :
    (v.after ctx prepared).disk = v.before.disk ∧
      (v.after ctx prepared).registry =
        match v.verdict ctx prepared with
        | .generate plan =>
          if v.role = .intermediate then v.before.registry.insert v.path plan.entry
          else v.before.registry
        | _ => v.before.registry := by
  rw [after, result_eq]
  cases v.verdict ctx prepared with
  | unread | skip => exact ⟨rfl, rfl⟩
  | generate plan =>
    simp only [carriedOut, RunState.carryOut_eq, Context.giveOut_dry dry, RunState.register]
    cases v.role <;> simp

end Visit

def basesOf (agenda : List (Role × Path)) : List Path :=
  (agenda.filter (·.1 = .intermediate)).map Prod.snd

theorem basesOf_append (first second : List (Role × Path)) :
    basesOf (first ++ second) = basesOf first ++ basesOf second := by
  simp [basesOf]

namespace Prepared

variable (prepared : Prepared) (ctx : Context)

theorem basesOf_agenda : basesOf prepared.agenda = prepared.intermediates := by
  simp [basesOf, agenda, List.filter_map, Function.comp_def]

theorem agenda_basesFirst :
    prepared.agenda.Pairwise fun earlier later =>
      later.1 = .intermediate → earlier.1 = .intermediate := by
  simp [agenda, List.pairwise_append, List.pairwise_map, List.pairwise_of_forall]

-- The trait that a file becomes as a base of models if it was read and declares something.
def traitOf? (p : Path) : Option TraitEntry :=
  (prepared.loaded.parsed.get? p).bind fun f =>
    f.declaration.map fun _ => ctx.traitEntry .intermediate f

theorem traitOf?_congr {p q : Path} (same : (p == q) = true) :
    prepared.traitOf? ctx p = prepared.traitOf? ctx q := by
  rw [traitOf?, traitOf?, PathMap.get?_congr prepared.loaded.parsed same]

end Prepared

namespace RunState

variable {ctx : Context} {prepared : Prepared} {d : Disk} {done : List Path} {state : RunState}

-- The registry holds the traits of the bases of models that are done, and of no other file.
structure Registered (ctx : Context) (prepared : Prepared) (d : Disk) (done : List Path)
    (state : RunState) : Prop where
  disk : state.disk = d
  registry : ∀ p, state.registry.get? p =
    if done.contains p then prepared.traitOf? ctx p else none

theorem Registered.start (ctx : Context) (prepared : Prepared) (d : Disk) :
    Registered ctx prepared d [] (start d prepared) :=
  ⟨rfl, fun _ => rfl⟩

theorem Registered.intermediate (registered : Registered ctx prepared d done state)
    (dry : ctx.dryRun = true) (p : Path) :
    Registered ctx prepared d (done ++ [p])
      (Visit.after ⟨.intermediate, p, state⟩ ctx prepared) := by
  let v : Visit := ⟨.intermediate, p, state⟩
  obtain ⟨kept, registry⟩ := v.after_dry prepared dry
  have verdict : v.verdict ctx prepared = v.fileVerdict ctx prepared := by
    simp [Visit.verdict, v]
  refine ⟨kept.trans registered.disk, ?_⟩
  intro q
  have known := registered.registry q
  have last : (done ++ [p]).contains q = (done.contains q || q == p) := by simp
  rw [registry, verdict, last, Visit.fileVerdict]
  -- Either there is a trait to register, or there is none to look for.
  have absent (nothing : prepared.traitOf? ctx p = none) : state.registry.get? q =
      if (done.contains q || q == p) = true then prepared.traitOf? ctx q else none := by
    by_cases here : (q == p) = true
    next => simp [known, prepared.traitOf?_congr ctx here, nothing]
    next => simp [known, here]
  cases read : prepared.loaded.parsed.get? p with
  | none => simpa [v, read] using absent (by simp [Prepared.traitOf?, read])
  | some f =>
    cases declared : f.declaration with
    | none =>
      simpa [v, read, Project.plan, declared] using
        absent (by simp [Prepared.traitOf?, read, declared])
    | some declaration =>
      have entry : prepared.traitOf? ctx p = some (ctx.traitEntry .intermediate f) := by
        simp [Prepared.traitOf?, read, declared]
      simp only [v, Project.plan, declared, if_true, Project.entry_planDeclared,
        PathMap.get?_insert]
      by_cases here : (q == p) = true
      next => simp [here, prepared.traitOf?_congr ctx here, entry, project]
      next => simp [here, known]

theorem Registered.other (registered : Registered ctx prepared d done state)
    (dry : ctx.dryRun = true) {role : Role} (other : role ≠ .intermediate) (p : Path) :
    Registered ctx prepared d done (Visit.after ⟨role, p, state⟩ ctx prepared) := by
  obtain ⟨kept, registry⟩ := Visit.after_dry prepared dry ⟨role, p, state⟩
  refine ⟨kept.trans registered.disk, ?_⟩
  rw [registry]
  split
  next => simpa [other] using registered.registry
  next => exact registered.registry

theorem Registered.final (registered : Registered ctx prepared d done state)
    (dry : ctx.dryRun = true) (agenda : List (Role × Path)) :
    Registered ctx prepared d (done ++ basesOf agenda)
      (Visit.final ctx prepared state agenda) := by
  induction agenda generalizing done state with
  | nil => simpa [basesOf, Visit.final] using registered
  | cons entry rest ih =>
    obtain ⟨role, p⟩ := entry
    by_cases base : role = .intermediate
    next =>
      subst base
      simpa [basesOf, Visit.final] using ih (registered.intermediate dry p)
    next => simpa [basesOf, Visit.final, base] using ih (registered.other dry base p)

theorem Registered.baseTrait? (registered : Registered ctx prepared d done state) {f : SourceFile}
    {p : Path} (same : (f.path == p) = true) :
    (state.project ctx prepared).baseTrait? f =
      (Project.baseModel? ctx d prepared.loaded.parsed p).bind fun b =>
        if prepared.intermediates.contains b && done.contains b then prepared.traitOf? ctx b
        else none := by
  rw [Project.baseTrait?, project, registered.disk,
    Project.baseModel?_congr ctx d prepared.loaded.parsed f.path p same]
  cases Project.baseModel? ctx d prepared.loaded.parsed p with
  | none => rfl
  | some b =>
    by_cases known : prepared.intermediates.contains b = true
    next => simpa [known] using registered.registry b
    next => simp [known]

end RunState

namespace Visit

variable {ctx : Context} {prepared : Prepared}

theorem before_eq_final {state : RunState} {agenda : List (Role × Path)} {v : Visit}
    (member : v ∈ along ctx prepared state agenda) :
    ∃ front back, agenda = front ++ (v.role, v.path) :: back ∧
      v.before = final ctx prepared state front := by
  induction agenda generalizing state with
  | nil => cases member
  | cons entry rest ih =>
    rcases List.mem_cons.mp member with rfl | later
    next => exact ⟨[], rest, rfl, rfl⟩
    next =>
      obtain ⟨front, back, split, before⟩ := ih later
      exact ⟨entry :: front, back, by rw [split]; rfl, before⟩

end Visit

namespace Context

variable {ctx : Context} {d : Disk}

theorem registered_visit (dry : ctx.dryRun = true) {v : Visit} (member : v ∈ ctx.visits d) :
    ∃ front back, (ctx.prepare d).agenda = front ++ (v.role, v.path) :: back ∧
      v.before.Registered ctx (ctx.prepare d) d (basesOf front) := by
  obtain ⟨front, back, split, before⟩ := Visit.before_eq_final member
  refine ⟨front, back, split, ?_⟩
  rw [before]
  simpa using (RunState.Registered.start ctx (ctx.prepare d) d).final dry front

variable (ctx) in
theorem lastState_registered (dry : ctx.dryRun = true) :
    (ctx.lastState d).Registered ctx (ctx.prepare d) d (ctx.prepare d).intermediates := by
  have last := (RunState.Registered.start ctx (ctx.prepare d) d).final dry (ctx.prepare d).agenda
  rwa [Prepared.basesOf_agenda] at last

theorem not_isIntermediate_of_model {front back : List (Role × Path)} {p : Path}
    (split : (ctx.prepare d).agenda = front ++ (.model, p) :: back) :
    ¬ctx.IsIntermediate d p := by
  have listed : (Role.model, p) ∈ (ctx.prepare d).agenda := by simp [split]
  have plain : p ∈ (ctx.prepare d).plainModels := by simpa [Prepared.agenda] using listed
  obtain ⟨reported, order⟩ := ctx.prepare_basesFirst d
  rw [← order.member]
  simpa using (List.mem_filter.mp plain).2

theorem basesOf_front_of_model {front back : List (Role × Path)} {p : Path}
    (split : (ctx.prepare d).agenda = front ++ (.model, p) :: back) :
    basesOf front = (ctx.prepare d).intermediates := by
  have order := (ctx.prepare d).agenda_basesFirst
  rw [split] at order
  have later := (List.pairwise_cons.mp (List.pairwise_append.mp order).2.1).1
  have plain : basesOf ((.model, p) :: back) = [] := by
    rw [basesOf, List.map_eq_nil_iff, List.filter_eq_nil_iff]
    intro entry listed
    rcases List.mem_cons.mp listed with rfl | listed
    next => simp
    next => simpa using later entry listed
  rw [← Prepared.basesOf_agenda, split, basesOf_append, plain, List.append_nil]

theorem basesOf_front_of_intermediate {front back : List (Role × Path)} {p : Path}
    (split : (ctx.prepare d).agenda = front ++ (.intermediate, p) :: back) :
    ctx.IsIntermediate d p ∧ ∀ b, (basesOf front).contains b = true ↔
      BaseOrder.Precedes (ctx.prepare d).intermediates b p := by
  obtain ⟨reported, order⟩ := ctx.prepare_basesFirst d
  have whole : (ctx.prepare d).intermediates = basesOf front ++ p :: basesOf back := by
    rw [← Prepared.basesOf_agenda, split, basesOf_append]
    rfl
  have own : ctx.IsIntermediate d p := by
    rw [← order.member, whole]
    simp
  -- The order holds no file twice, so what is done is what comes before the file.
  have fresh : (basesOf front).contains p = false := by
    have apart := order.distinct
    rw [whole] at apart
    rw [Bool.eq_false_iff]
    intro inside
    obtain ⟨q, member, same⟩ := List.contains_iff_exists_mem_beq.mp inside
    have unlike := (List.pairwise_append.mp apart).2.2 q member p List.mem_cons_self
    rw [BEq.symm same] at unlike
    cases unlike
  refine ⟨own, ?_⟩
  intro b
  rw [whole, BaseOrder.precedes_head_iff fresh]

theorem basesOf_front_iff {front back : List (Role × Path)} {role : Role} {p b : Path}
    (split : (ctx.prepare d).agenda = front ++ (role, p) :: back) (proper : role ≠ .mixin)
    (known : (ctx.prepare d).intermediates.contains b = true) :
    (basesOf front).contains b = true ↔
      ¬ctx.IsIntermediate d p ∨ BaseOrder.Precedes (ctx.prepare d).intermediates b p := by
  cases role with
  | mixin => exact absurd rfl proper
  | model => simp [basesOf_front_of_model split, not_isIntermediate_of_model split, known]
  | intermediate =>
    obtain ⟨own, done⟩ := basesOf_front_of_intermediate split
    simp [own, done]

end Context

end SchemaMigration
