import Mathlib.Data.Set.Card
import Mathlib.Logic.Relation
import SchemaMigration.Migration.BaseOrder

set_option autoImplicit false

namespace SchemaMigration.BaseOrder

variable {α : Type} [BEq α]

-- The base counts up to equality, since the list may hold an equal member.
def Based (members : List α) (base? : α → Option α) (a b : α) : Prop :=
  ∃ base, memberBase? members base? a = some base ∧ (base == b) = true

def OnCycle (Base : α → α → Prop) (a : α) : Prop :=
  Relation.TransGen Base a a

def Reaches (Base : α → α → Prop) (a b : α) : Prop :=
  (a == b) = true ∨ Relation.TransGen Base a b

-- For a member of a circle this is the circle.
def cycleOf (Base : α → α → Prop) (a : α) : Set α :=
  {b | Relation.TransGen Base a b}

def Cycles (Base : α → α → Prop) : Set (Set α) :=
  {cycle | ∃ a, OnCycle Base a ∧ cycle = cycleOf Base a}

section Graph

variable [EquivBEq α] {members : List α} {base? : α → Option α} {a b c : α}

theorem Based.contains (based : Based members base? a b) : members.contains b = true := by
  obtain ⟨base, found, same⟩ := based
  rw [← List.contains_congr same]
  exact (Option.filter_eq_some_iff.mp found).2

theorem Based.congr_right (based : Based members base? a b) (same : (b == c) = true) :
    Based members base? a c := by
  obtain ⟨base, found, equal⟩ := based
  exact ⟨base, found, BEq.trans equal same⟩

theorem Based.unique (first : Based members base? a b) (second : Based members base? a c) :
    (b == c) = true := by
  obtain ⟨base, found, same⟩ := first
  obtain ⟨other, again, equal⟩ := second
  obtain rfl : base = other := Option.some.inj (found.symm.trans again)
  exact BEq.trans (BEq.symm same) equal

theorem transGen_contains (path : Relation.TransGen (Based members base?) a b) :
    members.contains b = true := by
  cases path with
  | single based => exact based.contains
  | tail _ based => exact based.contains

theorem transGen_congr_right (path : Relation.TransGen (Based members base?) a b)
    (same : (b == c) = true) : Relation.TransGen (Based members base?) a c := by
  cases path with
  | single based => exact .single (based.congr_right same)
  | tail path based => exact .tail path (based.congr_right same)

variable (congr : ∀ a b, (a == b) = true → base? a = base? b)

omit [EquivBEq α] in
include congr in
theorem Based.congr_left (based : Based members base? a b) (same : (a == c) = true) :
    Based members base? c b := by
  obtain ⟨base, found, equal⟩ := based
  exact ⟨base, by rwa [memberBase?, ← congr a c same], equal⟩

omit [EquivBEq α] in
include congr in
theorem transGen_congr_left (path : Relation.TransGen (Based members base?) a b)
    (same : (a == c) = true) : Relation.TransGen (Based members base?) c b := by
  induction path with
  | single based => exact .single (based.congr_left congr same)
  | tail _ based ih => exact .tail ih based

include congr in
theorem Reaches.trans_path (first : Reaches (Based members base?) a b)
    (path : Relation.TransGen (Based members base?) b c) :
    Relation.TransGen (Based members base?) a c := by
  rcases first with same | before
  · exact transGen_congr_left congr path (BEq.symm same)
  · exact before.trans path

include congr in
theorem OnCycle.base (cycle : OnCycle (Based members base?) a) (based : Based members base? a b) :
    Relation.TransGen (Based members base?) b a := by
  obtain ⟨next, first, rest⟩ := Relation.TransGen.head'_iff.mp cycle
  have same := first.unique based
  rcases Relation.reflTransGen_iff_eq_or_transGen.mp rest with whole | path
  · -- The circle has one member, which is its own base.
    subst whole
    exact .single (first.congr_left congr same)
  · exact transGen_congr_left congr path same

include congr in
theorem OnCycle.back (cycle : OnCycle (Based members base?) a)
    (path : Relation.TransGen (Based members base?) a b) :
    Relation.TransGen (Based members base?) b a := by
  induction path with
  | single based => exact cycle.base congr based
  | @tail b c path based ih =>
    have onward : OnCycle (Based members base?) b := ih.trans path
    exact (onward.base congr based).trans ih

include congr in
theorem OnCycle.cycleOf_eq (cycle : OnCycle (Based members base?) a)
    (path : Relation.TransGen (Based members base?) a b) :
    cycleOf (Based members base?) a = cycleOf (Based members base?) b := by
  ext c
  constructor
  · intro below
    exact (cycle.back congr path).trans below
  · intro below
    exact path.trans below

end Graph

def Precedes (ordered : List α) (a b : α) : Prop :=
  ordered.idxOf a < ordered.idxOf b

def OutOfOrder (Base : α → α → Prop) (ordered : List α) (a : α) : Prop :=
  ∃ b, Base a b ∧ ¬Precedes ordered b a

-- An order of members by their bases, with the members at which a circle is reported.
structure BasesFirst (Member : α → Prop) (Base : α → α → Prop) (ordered reported : List α) :
    Prop where
  member : ∀ a, ordered.contains a = true ↔ Member a
  distinct : ordered.Pairwise fun a b => (a == b) = false
  baseFirst : ∀ a b, Member a → Base a b → ¬Reaches Base b a → Precedes ordered b a
  onCycle : ∀ a ∈ reported, OnCycle Base a
  cycles : (reported.map (cycleOf Base)).Nodup ∧
    ∀ cycle, cycle ∈ Cycles Base ↔ ∃ a ∈ reported, cycle = cycleOf Base a
  count : reported.length = (Cycles Base).ncard
  oneTurn : ∀ a, OnCycle Base a → ∃ b, b ∈ cycleOf Base a ∧ OutOfOrder Base ordered b ∧
    ∀ c, c ∈ cycleOf Base a → OutOfOrder Base ordered c → (c == b) = true

section Position

variable [EquivBEq α] {front back : List α} {a b : α}

theorem idxOf_lt_length : front.idxOf a < front.length ↔ front.contains a = true := by
  rw [List.idxOf, List.findIdx_lt_length, List.contains_iff_exists_mem_beq]
  simp only [BEq.comm]

theorem idxOf_append_of_contains (inside : front.contains a = true) :
    (front ++ back).idxOf a = front.idxOf a := by
  have earlier : front.idxOf a < front.length := idxOf_lt_length.mpr inside
  rw [List.idxOf] at earlier
  rw [List.idxOf, List.findIdx_append, if_pos earlier]

theorem idxOf_append_of_not_contains (outside : front.contains a = false) :
    (front ++ back).idxOf a = back.idxOf a + front.length := by
  have later : ¬front.idxOf a < front.length := by simp [idxOf_lt_length, outside]
  rw [List.idxOf] at later
  rw [List.idxOf, List.findIdx_append, if_neg later]

omit [EquivBEq α] in
theorem Precedes.trans {c : α} (first : Precedes front a b) (second : Precedes front b c) :
    Precedes front a c :=
  Nat.lt_trans first second

omit [EquivBEq α] in
theorem exists_outOfOrder {Base : α → α → Prop} (cycle : OnCycle Base a) (ordered : List α) :
    ∃ b ∈ cycleOf Base a, OutOfOrder Base ordered b := by
  by_contra none
  have descends : ∀ b c, b ∈ cycleOf Base a → Base b c → Precedes ordered c b := by
    intro b c below base
    by_contra late
    exact none ⟨b, below, c, base, late⟩
  -- Round the circle the position would fall below itself.
  have before : ∀ b, Relation.TransGen Base a b → Precedes ordered b a := by
    intro b path
    induction path with
    | single base => exact descends a _ cycle base
    | @tail b c path base ih => exact (descends b c path base).trans ih
  exact Nat.lt_irrefl _ (before a cycle)

theorem Precedes.congr_right {c : α} (before : Precedes front a b) (same : (b == c) = true) :
    Precedes front a c := by
  rw [Precedes, List.idxOf, List.idxOf] at *
  simpa only [BEq.congr_right same] using before

theorem Precedes.contains (before : Precedes front a b) : front.contains a = true :=
  idxOf_lt_length.mp (Nat.lt_of_lt_of_le before List.findIdx_le_length)

theorem precedes_append (inside : front.contains a = true) (outside : front.contains b = false) :
    Precedes (front ++ back) a b := by
  have first := idxOf_lt_length.mpr inside
  rw [Precedes, idxOf_append_of_contains inside, idxOf_append_of_not_contains outside]
  omega

theorem precedes_append_iff (inside : front.contains b = true) :
    Precedes (front ++ back) a b ↔ Precedes front a b := by
  have known := idxOf_lt_length.mpr inside
  rw [Precedes, Precedes, idxOf_append_of_contains inside]
  by_cases first : front.contains a = true
  · rw [idxOf_append_of_contains first]
  · have later : ¬front.idxOf a < front.length := by simpa [idxOf_lt_length] using first
    rw [idxOf_append_of_not_contains (by simpa using first)]
    omega

theorem precedes_head_iff (fresh : front.contains b = false) :
    Precedes (front ++ b :: back) a b ↔ front.contains a = true := by
  constructor
  · intro before
    by_contra outside
    rw [Precedes, idxOf_append_of_not_contains (by simpa using outside),
      idxOf_append_of_not_contains fresh] at before
    simp [List.idxOf_cons] at before
  · intro inside
    exact precedes_append inside fresh

end Position

end SchemaMigration.BaseOrder
