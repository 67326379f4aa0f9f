import Mathlib.Data.List.Forall2
import SchemaMigration.Proofs.ComposedMembers
import SchemaMigration.Proofs.FieldCalls

set_option autoImplicit false

namespace SchemaMigration

open Source

open FieldCall (IsFieldCall Decodes)

inductive Source.ClassMember.Declares (imports : List Import) : ClassMember → String → Expr → Prop
  | field {lexeme : Lexeme} {key : Key} {before after : List Decorator} {decorator : Decorator}
      (others : ∀ other ∈ before, ¬IsFieldCall imports other.expression)
      (first : IsFieldCall imports decorator.expression) :
      Declares imports (.field lexeme key (before ++ decorator :: after))
        (Text.unquote key.lexeme.text) decorator.expression

inductive Source.ObjectMember.Declares (imports : List Import) : ObjectMember → String → Expr → Prop
  | pair {lexeme : Lexeme} {key : Key} {value : Expr} (called : IsFieldCall imports value) :
      Declares imports (.pair lexeme key value) (Text.unquote key.lexeme.text) value

section Member

variable {α : Type} (imports : List Import) (declares : α → String → Expr → Prop)

def Malformed (m : α) : Prop :=
  ∃ name e, declares m name e ∧ ∀ call, ¬Decodes imports e call

structure IsReading (place : Span) (m : α) (r : MemberReading) : Prop where
  field : ∀ f, r.field? = some f ↔
    ∃ name e call, declares m name e ∧ Decodes imports e call ∧ call.toField name = f
  behavior : ∀ b, r.behavior? = some b → b.span = place
  warned : r.warning?.isSome = true ↔ Malformed imports declares m

variable {imports} {declares}

theorem isReading_readField {m : α} {call : Option (Except CallFault FieldCall)} {name : String}
    (isCall : ∀ other e, declares m other e → IsFieldCall imports e)
    (found : ∀ other result, (∃ e, declares m other e ∧ FieldCall.read? imports e = some result) ↔
      other = name ∧ call = some result) {place : Span} {b : Behavior} (span : b.span = place) :
    IsReading imports declares place m (readField call name b) := by
  have declared (f : Field) : (∃ other e usable, declares m other e ∧ Decodes imports e usable ∧
      usable.toField other = f) ↔ ∃ usable, call = some (.ok usable) ∧ usable.toField name = f := by
    constructor
    next =>
      rintro ⟨other, e, usable, own, decodes, same⟩
      obtain ⟨rfl, called⟩ :=
        (found other (.ok usable)).mp ⟨e, own, FieldCall.read?_eq_ok_iff.mpr decodes⟩
      exact ⟨usable, called, same⟩
    next =>
      rintro ⟨usable, called, same⟩
      obtain ⟨e, own, read⟩ := (found name (.ok usable)).mpr ⟨rfl, called⟩
      exact ⟨name, e, usable, own, FieldCall.read?_eq_ok_iff.mp read, same⟩
  have malformed : Malformed imports declares m ↔ ∃ fault, call = some (.error fault) := by
    constructor
    next =>
      rintro ⟨other, e, own, unusable⟩
      obtain ⟨result, read⟩ :=
        Option.isSome_iff_exists.mp (FieldCall.read?_isSome_iff.mpr (isCall other e own))
      cases result with
      | ok usable => exact absurd (FieldCall.read?_eq_ok_iff.mp read) (unusable usable)
      | error fault => exact ⟨fault, ((found other _).mp ⟨e, own, read⟩).2⟩
    next =>
      rintro ⟨fault, called⟩
      obtain ⟨e, own, read⟩ := (found name (.error fault)).mpr ⟨rfl, called⟩
      refine ⟨name, e, own, fun usable decodes => ?_⟩
      rw [FieldCall.read?_eq_ok_iff.mpr decodes] at read
      cases read
  refine ⟨?_, ?_, ?_⟩
  next =>
    intro f
    rw [declared]
    rcases call with _ | _ | usable <;> simp [readField, MemberReading.field?]
  next =>
    intro other kept
    rw [eq_of_readField kept, span]
  next =>
    rw [malformed]
    rcases call with _ | _ | usable <;> simp [readField, MemberReading.warning?]

theorem isReading_behavior {m : α} (undeclared : ∀ name e, ¬declares m name e) {place : Span}
    {b : Behavior} (span : b.span = place) :
    IsReading imports declares place m (.behavior b none) :=
  @isReading_readField _ _ _ _ none "" (fun name e own => absurd own (undeclared name e))
    (by simp [undeclared]) _ _ span

end Member

section Grammars

variable {imports : List Import} {start : Nat}

theorem isReading_readClassMember? {m : ClassMember} {r : MemberReading}
    (read : readClassMember? imports start m = some r) :
    IsReading imports (ClassMember.Declares imports) ⟨start, m.lexeme.span.stop⟩ m r := by
  cases m with
  | comment | decorators => cases read
  | field lexeme key decorators =>
    cases read
    refine isReading_readField ?_ (fun name result => ?_) rfl
    next =>
      rintro name e ⟨-, first⟩
      exact first
    next =>
      rw [decoratedField?, List.findSome?_eq_some_iff]
      constructor
      next =>
        rintro ⟨e, ⟨others, -⟩, read⟩
        exact ⟨rfl, _, _, _, rfl, read, fun other listed =>
          FieldCall.read?_eq_none_iff.mpr (others other listed)⟩
      next =>
        rintro ⟨rfl, before, decorator, after, rfl, read, others⟩
        refine ⟨_, .field (fun other listed => ?_) ?_, read⟩
        next => exact FieldCall.read?_eq_none_iff.mp (others other listed)
        next => exact FieldCall.read?_isSome_iff.mp (by rw [read]; rfl)
  | method | signature | staticBlock =>
    cases read
    exact isReading_behavior (by rintro _ _ ⟨⟩) rfl

theorem isReading_readObjectMember? {m : ObjectMember} {r : MemberReading}
    (read : readObjectMember? imports start m = some r) :
    IsReading imports (ObjectMember.Declares imports) ⟨start, m.lexeme.span.stop⟩ m r := by
  cases m with
  | comment => cases read
  | pair lexeme key value =>
    cases read
    refine isReading_readField ?_ (fun name result => ?_) rfl
    next =>
      rintro name e ⟨called⟩
      exact called
    next =>
      constructor
      next =>
        rintro ⟨e, ⟨-⟩, read⟩
        exact ⟨rfl, read⟩
      next =>
        rintro ⟨rfl, read⟩
        exact ⟨_, .pair (FieldCall.read?_isSome_iff.mp (by rw [read]; rfl)), read⟩
  | method | shorthand | spread =>
    cases read
    exact isReading_behavior (by rintro _ _ ⟨⟩) rfl

end Grammars

section Groups

variable {α : Type} {isMember : α → Bool}

structure MemberGroup (isMember : α → Bool) where
  front : List α
  member : α
  loose : ∀ x ∈ front, isMember x = false
  proper : isMember member = true

namespace MemberGroup

def all (g : MemberGroup isMember) : List α :=
  g.front ++ [g.member]

def span (place : α → Span) (g : MemberGroup isMember) : Span :=
  ⟨(place (g.front.headD g.member)).start, (place g.member).stop⟩

theorem filter_all (g : MemberGroup isMember) : g.all.filter isMember = [g.member] := by
  have front : g.front.filter isMember = [] := by
    simpa [List.filter_eq_nil_iff] using g.loose
  simp [all, front, g.proper]

end MemberGroup

structure Grouping (members : List α) (groups : List (MemberGroup isMember)) (trailing : List α) :
    Prop where
  whole : members = groups.flatMap MemberGroup.all ++ trailing
  loose : ∀ x ∈ trailing, isMember x = false

theorem Grouping.filter_eq {members trailing : List α} {groups : List (MemberGroup isMember)}
    (grouping : Grouping members groups trailing) :
    members.filter isMember = groups.map MemberGroup.member := by
  have none : trailing.filter isMember = [] := by
    simpa [List.filter_eq_nil_iff] using grouping.loose
  rw [grouping.whole, List.filter_append, none, List.append_nil, List.filter_flatMap,
    List.map_eq_flatMap]
  simp only [MemberGroup.filter_all]

variable {place : α → Span} {read? : Nat → α → Option MemberReading}

-- What waits to be put in front of the next member is what was passed since the last one.
theorem exists_grouping (reads : ∀ start m, (read? start m).isSome = isMember m)
    (members : List α) {front : List α} (passed : ∀ x ∈ front, isMember x = false) :
    ∃ (groups : List (MemberGroup isMember)) (trailing : List α),
      Grouping (front ++ members) groups trailing ∧
      List.Forall₂ (fun g r => read? (g.span place).start g.member = some r) groups
        (readMembers place read? (front.head?.map fun x => (place x).start) members) := by
  induction members generalizing front with
  | nil => exact ⟨[], front, ⟨by simp, passed⟩, .nil⟩
  | cons m rest ih =>
    have start : (front.head?.map fun x => (place x).start).getD (place m).start =
        (place (front.headD m)).start := by
      cases front <;> rfl
    have isRead := reads (place (front.headD m)).start m
    simp only [readMembers, start]
    cases reading : read? (place (front.headD m)).start m with
    | none =>
      rw [reading] at isRead
      have further : ∀ x ∈ front ++ [m], isMember x = false := by
        intro x listed
        rcases List.mem_append.mp listed with before | last
        next => exact passed x before
        next =>
          rw [List.mem_singleton.mp last]
          exact isRead.symm
      have waiting : ((front ++ [m]).head?.map fun x => (place x).start) =
          some (place (front.headD m)).start := by
        cases front <;> rfl
      obtain ⟨groups, trailing, grouping, each⟩ := ih further
      rw [waiting] at each
      exact ⟨groups, trailing, by simpa using grouping, each⟩
    | some r =>
      rw [reading] at isRead
      obtain ⟨groups, trailing, ⟨whole, loose⟩, each⟩ := @ih [] (by simp)
      rw [List.nil_append] at whole
      refine ⟨⟨front, m, passed, isRead.symm⟩ :: groups, trailing, ⟨?_, loose⟩, .cons reading each⟩
      simp [MemberGroup.all, whole]

theorem length_filterMap_of_forall₂ {β γ : Type} {R : α → β → Prop} {p : α → Bool}
    {f : β → Option γ} (agree : ∀ a b, R a b → (f b).isSome = p a) {as : List α} {bs : List β}
    (each : List.Forall₂ R as bs) : (bs.filterMap f).length = as.countP p := by
  induction each with
  | nil => rfl
  | @cons a b as bs related _ ih =>
    have same := agree a b related
    cases made : f b <;> simp_all

theorem MemberReading.length_add_length (readings : List MemberReading) :
    (readings.filterMap field?).length + (readings.filterMap behavior?).length =
      readings.length := by
  induction readings with
  | nil => rfl
  | cons r rest ih =>
    cases r <;> simp [List.filterMap_cons, field?, behavior?] <;> omega

end Groups

section Split

variable {α : Type} (imports : List Import) (place : α → Span) (isMember : α → Bool)
  (declares : α → String → Expr → Prop) [DecidablePred (Malformed imports declares)]

structure MembersSplit (members : List α) (readings : List MemberReading) : Prop where
  each : ∃ (groups : List (MemberGroup isMember)) (trailing : List α),
    Grouping members groups trailing ∧
      List.Forall₂ (fun g r => IsReading imports declares (g.span place) g.member r) groups readings
  total : (readings.filterMap MemberReading.field?).length +
    (readings.filterMap MemberReading.behavior?).length = members.countP isMember
  warnings : (readings.filterMap MemberReading.warning?).length =
    members.countP fun m => decide (Malformed imports declares m)

variable {imports} {place} {isMember} {declares} {read? : Nat → α → Option MemberReading}

theorem membersSplit_readMembers (reads : ∀ start m, (read? start m).isSome = isMember m)
    (readings : ∀ start m r, read? start m = some r →
      IsReading imports declares ⟨start, (place m).stop⟩ m r)
    (undeclared : ∀ m, Malformed imports declares m → isMember m = true) (members : List α) :
    MembersSplit imports place isMember declares members
      (readMembers place read? none members) := by
  obtain ⟨groups, trailing, grouping, each⟩ :=
    @exists_grouping _ _ place _ reads members [] (by simp)
  rw [List.nil_append] at grouping
  have read := each.imp fun g r reading => readings _ _ _ reading
  refine ⟨⟨groups, trailing, grouping, read⟩, ?_, ?_⟩
  next =>
    rw [MemberReading.length_add_length, List.countP_eq_length_filter, grouping.filter_eq,
      List.length_map, each.length_eq]
    rfl
  next =>
    have agree (g : MemberGroup isMember) (r : MemberReading)
        (reading : IsReading imports declares (g.span place) g.member r) :
        r.warning?.isSome = decide (Malformed imports declares g.member) := by
      rw [Bool.eq_iff_iff, decide_eq_true_iff]
      exact reading.warned
    calc ((readMembers place read? none members).filterMap MemberReading.warning?).length
      _ = groups.countP fun g => decide (Malformed imports declares g.member) :=
        length_filterMap_of_forall₂ agree read
      _ = (members.filter isMember).countP fun m => decide (Malformed imports declares m) := by
        rw [grouping.filter_eq, List.countP_map]
        rfl
      _ = members.countP fun m => decide (Malformed imports declares m) := by
        rw [List.countP_filter]
        apply List.countP_congr
        intro m _
        simpa using undeclared m

end Split

theorem malformed_iff {α : Type} {imports : List Import} {declares : α → String → Expr → Prop}
    {m : α} {place : Span} {read : Option MemberReading}
    (undeclared : Malformed imports declares m → read.isSome = true)
    (reading : ∀ r, read = some r → IsReading imports declares place m r) :
    (read.bind MemberReading.warning?).isSome = true ↔ Malformed imports declares m := by
  cases read with
  | none => simpa using undeclared
  | some r => exact (reading r rfl).warned

theorem Source.ClassMember.isMember_of_malformed {imports : List Import} {m : ClassMember}
    (malformed : Malformed imports (Declares imports) m) : m.isMember = true := by
  obtain ⟨_, _, ⟨⟩, -⟩ := malformed
  rfl

theorem Source.ObjectMember.isMember_of_malformed {imports : List Import} {m : ObjectMember}
    (malformed : Malformed imports (Declares imports) m) : m.isMember = true := by
  obtain ⟨_, _, ⟨⟩, -⟩ := malformed
  rfl

instance (imports : List Import) :
    DecidablePred (Malformed imports (ClassMember.Declares imports)) :=
  fun m => decidable_of_iff
    (((readClassMember? imports 0 m).bind MemberReading.warning?).isSome = true)
    (malformed_iff
      (fun bad => (readClassMember?_isSome ..).trans (ClassMember.isMember_of_malformed bad))
      fun _ => isReading_readClassMember?)

instance (imports : List Import) :
    DecidablePred (Malformed imports (ObjectMember.Declares imports)) :=
  fun m => decidable_of_iff
    (((readObjectMember? imports 0 m).bind MemberReading.warning?).isSome = true)
    (malformed_iff
      (fun bad => (readObjectMember?_isSome ..).trans (ObjectMember.isMember_of_malformed bad))
      fun _ => isReading_readObjectMember?)

theorem members_split_once (imports : List Import) :
    (∀ members, MembersSplit imports (·.lexeme.span) ClassMember.isMember
      (ClassMember.Declares imports) members (readClassMembers imports members)) ∧
    ∀ members, MembersSplit imports (·.lexeme.span) ObjectMember.isMember
      (ObjectMember.Declares imports) members (readObjectMembers imports members) := by
  constructor
  next =>
    exact membersSplit_readMembers (readClassMember?_isSome imports)
      (fun _ _ _ => isReading_readClassMember?) fun _ => ClassMember.isMember_of_malformed
  next =>
    exact membersSplit_readMembers (readObjectMember?_isSome imports)
      (fun _ _ _ => isReading_readObjectMember?) fun _ => ObjectMember.isMember_of_malformed

end SchemaMigration
