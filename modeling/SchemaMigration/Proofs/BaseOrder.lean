import Mathlib.Data.List.Basic
import SchemaMigration.Proofs.BaseGraph

set_option autoImplicit false

namespace SchemaMigration.BaseOrder

variable {α : Type} [BEq α]

section Trail

variable [EquivBEq α] (members : List α) (base? : α → Option α)

-- What one visit adds: the members from the deepest one up to its start, and the member at which
-- it closed a circle.
inductive Trail (ordered : List α) : List α → α → List α → List α → Prop
  | done {active : List α} {member : α} (known : ordered.contains member = true) :
      Trail ordered active member [] []
  | closes {active : List α} {member : α} (fresh : ordered.contains member = false)
      (waits : active.contains member = true) : Trail ordered active member [] [member]
  | ends {active : List α} {member : α} (fresh : ordered.contains member = false)
      (rests : active.contains member = false) (bottom : memberBase? members base? member = none) :
      Trail ordered active member [member] []
  | climbs {active : List α} {member base : α} {chain closing : List α}
      (fresh : ordered.contains member = false) (rests : active.contains member = false)
      (based : memberBase? members base? member = some base)
      (below : Trail ordered (member :: active) base chain closing) :
      Trail ordered active member (chain ++ [member]) closing

theorem visit_trail (active : List α) (order : BaseOrder α) (member : α) :
    ∃ chain closing, Trail members base? order.ordered active member chain closing ∧
      visit members base? active order member =
        ⟨order.ordered ++ chain, order.broken ++ closing⟩ := by
  fun_induction visit members base? active order member with
  | case1 active member known => exact ⟨[], [], .done known, by simp⟩
  | case2 active member fresh waits =>
    exact ⟨[], [member], .closes (by simpa using fresh) waits, by simp⟩
  | case3 active member fresh rests base based fewer visited ih =>
    obtain ⟨chain, closing, trail, result⟩ := ih
    refine ⟨chain ++ [member], closing,
      .climbs (by simpa using fresh) (by simpa using rests) based trail, ?_⟩
    simp [visited, result]
  | case4 active member fresh rests bottom =>
    exact ⟨[member], [], .ends (by simpa using fresh) (by simpa using rests) bottom, by simp⟩

variable {members base?} {ordered active chain closing : List α} {member a : α}

theorem Trail.fresh (trail : Trail members base? ordered active member chain closing) {a : α}
    (added : chain.contains a = true) :
    ordered.contains a = false ∧ active.contains a = false := by
  induction trail with
  | done | closes => simp at added
  | @ends active member fresh rests bottom =>
    have same : (a == member) = true := by simpa using added
    rw [List.contains_congr same, List.contains_congr same]
    exact ⟨fresh, rests⟩
  | @climbs active member base chain closing fresh rests based below ih =>
    rw [List.contains_append, Bool.or_eq_true] at added
    rcases added with lower | last
    · obtain ⟨new, out⟩ := ih lower
      rw [List.contains_cons, Bool.or_eq_false_iff] at out
      exact ⟨new, out.2⟩
    · have same : (a == member) = true := by simpa using last
      rw [List.contains_congr same, List.contains_congr same]
      exact ⟨fresh, rests⟩

theorem Trail.not_waiting (trail : Trail members base? ordered (member :: active) a chain closing) :
    chain.contains member = false := by
  rw [Bool.eq_false_iff]
  intro added
  simpa using (trail.fresh added).2

theorem Trail.distinct (trail : Trail members base? ordered active member chain closing) :
    chain.Pairwise fun a b => (a == b) = false := by
  induction trail with
  | done | closes | ends => simp
  | climbs fresh rests based below ih =>
    refine List.pairwise_append.mpr ⟨ih, List.pairwise_singleton _ _, ?_⟩
    intro a lower b last
    rw [List.mem_singleton.mp last, Bool.eq_false_iff]
    intro same
    have added := List.contains_iff_exists_mem_beq.mpr ⟨a, lower, BEq.symm same⟩
    simp [below.not_waiting] at added

omit [EquivBEq α] in
theorem Trail.inside (trail : Trail members base? ordered active member chain closing)
    (start : members.contains member = true) : ∀ a ∈ chain, members.contains a = true := by
  induction trail with
  | done | closes => simp
  | ends => simpa using start
  | climbs fresh rests based below ih =>
    have lower := ih (Option.filter_eq_some_iff.mp based).2
    intro a listed
    rcases List.mem_append.mp listed with inner | last
    · exact lower a inner
    · rwa [List.mem_singleton.mp last]

omit [EquivBEq α] in
theorem Trail.start (trail : Trail members base? ordered active member chain closing) :
    (ordered.contains member = true ∧ chain = [] ∧ closing = []) ∨
      (active.contains member = true ∧ chain = [] ∧ closing = [member]) ∨ member ∈ chain := by
  cases trail with
  | done known => exact .inl ⟨known, rfl, rfl⟩
  | closes fresh waits => exact .inr (.inl ⟨waits, rfl, rfl⟩)
  | ends | climbs => simp

theorem Trail.reaches_head (trail : Trail members base? ordered active member chain closing)
    {turn : α} (head : chain.head? = some turn) :
    ∀ a ∈ chain, Reaches (Based members base?) a turn := by
  induction trail with
  | done | closes => simp
  | ends => simp_all [Reaches]
  | @climbs active member base chain closing fresh rests based below ih =>
    intro a listed
    by_cases bottom : chain = []
    · subst bottom
      obtain rfl : member = turn := by simpa using head
      rw [List.mem_singleton.mp listed]
      exact .inl BEq.rfl
    -- The trail below is not empty, so it starts at the base and has the same head.
    have lower := ih (by simpa [List.head?_append_of_ne_nil _ bottom] using head)
    have added : base ∈ chain := by simpa [bottom] using below.start
    rcases List.mem_append.mp listed with inner | last
    · exact lower a inner
    · rw [List.mem_singleton.mp last]
      have step : Based members base? member base := ⟨base, based, BEq.rfl⟩
      rcases lower base added with same | path
      · exact .inr (.single (step.congr_right same))
      · exact .inr (.head step path)

-- Only the head of a trail may come before its base, and only if the visit closed a circle there.
theorem Trail.edges (trail : Trail members base? ordered active member chain closing) :
    ∀ a ∈ chain, ∀ b, Based members base? a b →
      Precedes (ordered ++ chain) b a ∨
        ∃ c, chain.head? = some a ∧ closing = [c] ∧ (c == b) = true := by
  induction trail with
  | done | closes => simp
  | ends fresh rests bottom =>
    intro a listed b based
    rw [List.mem_singleton.mp listed] at based
    obtain ⟨base, found, same⟩ := based
    simp [bottom] at found
  | @climbs active member base chain closing fresh rests based below ih =>
    intro a listed b edge
    rw [← List.append_assoc]
    rcases List.mem_append.mp listed with lower | last
    · have known : (ordered ++ chain).contains a = true :=
        List.elem_eq_true_of_mem (List.mem_append_right ordered lower)
      rcases ih a lower b edge with before | ⟨c, head, closed, same⟩
      · exact .inl ((precedes_append_iff known).mpr before)
      · exact .inr ⟨c, by simp [List.head?_append, head], closed, same⟩
    · rw [List.mem_singleton.mp last] at edge ⊢
      have same : (base == b) = true := Based.unique ⟨base, based, BEq.rfl⟩ edge
      have new : (ordered ++ chain).contains member = false := by
        rw [List.contains_append, fresh, below.not_waiting, Bool.false_or]
      -- Where the base waits, nothing was added below and the member is the head itself.
      rcases below.start with ⟨known, -, -⟩ | ⟨waits, bottom, closed⟩ | added
      · exact .inl (precedes_append (by simp [← List.contains_congr same, known]) new)
      · exact .inr ⟨base, by simp [bottom], closed, same⟩
      · have known := List.contains_iff_exists_mem_beq.mpr ⟨base, added, BEq.symm same⟩
        exact .inl (precedes_append (by rw [List.contains_append, known, Bool.or_true]) new)

theorem Trail.closed (trail : Trail members base? ordered active member chain closing) {c : α}
    (circle : c ∈ closing) :
    closing = [c] ∧ (chain = [] ∧ c = member ∧ active.contains c = true ∨
      ∃ turn, chain.head? = some turn ∧ Based members base? turn c ∧
        (active.contains c = true ∨ chain.contains c = true)) := by
  induction trail with
  | done | ends => simp at circle
  | closes fresh waits =>
    obtain rfl := List.mem_singleton.mp circle
    exact ⟨rfl, .inl ⟨rfl, rfl, waits⟩⟩
  | @climbs active member base chain closing fresh rests based below ih =>
    obtain ⟨single, ⟨bottom, first, waits⟩ | ⟨turn, head, edge, place⟩⟩ := ih circle
    · -- The circle closed right below, at a member that waits or at this one.
      subst first bottom
      refine ⟨single, .inr ⟨member, rfl, ⟨c, based, BEq.rfl⟩, ?_⟩⟩
      simpa [or_comm] using waits
    · refine ⟨single, .inr ⟨turn, by simp [List.head?_append, head], edge, ?_⟩⟩
      simp only [List.contains_cons, List.contains_append, Bool.or_eq_true] at place ⊢
      simp only [List.contains_nil, Bool.false_eq_true, or_false]
      tauto

-- Nothing waits when a visit starts from outside, so a circle that it closes lies in its trail.
theorem Trail.turns (congr : ∀ a b, (a == b) = true → base? a = base? b)
    (trail : Trail members base? ordered [] member chain closing) :
    ∃ turns : List (α × α), closing = turns.map Prod.snd ∧ turns.length ≤ 1 ∧
      (∀ r ∈ turns, chain.contains r.2 = true ∧ Based members base? r.1 r.2 ∧
        Reaches (Based members base?) r.2 r.1) ∧
      ∀ a ∈ chain, ∀ b, Based members base? a b →
        Precedes (ordered ++ chain) b a ∨ ∃ r ∈ turns, (r.1 == a) = true := by
  cases closes : closing with
  | nil =>
    refine ⟨[], rfl, by simp, by simp, ?_⟩
    intro a listed b edge
    simpa [closes] using trail.edges a listed b edge
  | cons c rest =>
    obtain ⟨single, ⟨-, -, waits⟩ | ⟨turn, head, edge, waits | added⟩⟩ :=
      trail.closed (c := c) (by simp [closes])
    · simp at waits
    · simp at waits
    · obtain ⟨x, listed, same⟩ := List.contains_iff_exists_mem_beq.mp added
      have back : Reaches (Based members base?) c turn := by
        rcases trail.reaches_head head x listed with equal | path
        · exact .inl (BEq.trans same equal)
        · exact .inr (transGen_congr_left congr path (BEq.symm same))
      refine ⟨[(turn, c)], by rw [← closes, single]; rfl, by simp, ?_, ?_⟩
      · simpa using ⟨added, edge, back⟩
      · intro a above b base
        rcases trail.edges a above b base with before | ⟨other, top, -, -⟩
        · exact .inl before
        · obtain rfl : turn = a := Option.some.inj (head.symm.trans top)
          exact .inr ⟨_, List.mem_singleton_self _, BEq.rfl⟩

end Trail

-- What holds of an order between two visits from outside. Each turn is a member and its base, the
-- edge at which a circle was broken.
structure Progress (members : List α) (base? : α → Option α) (order : BaseOrder α)
    (turns : List (α × α)) : Prop where
  distinct : order.ordered.Pairwise fun a b => (a == b) = false
  inside : ∀ a ∈ order.ordered, members.contains a = true
  broken : order.broken = turns.map Prod.snd
  turning : ∀ r ∈ turns, order.ordered.contains r.2 = true ∧ Based members base? r.1 r.2 ∧
    Reaches (Based members base?) r.2 r.1
  edges : ∀ a ∈ order.ordered, ∀ b, Based members base? a b →
    Precedes order.ordered b a ∨ ∃ r ∈ turns, (r.1 == a) = true
  apart : turns.Pairwise fun r s => ¬Relation.TransGen (Based members base?) r.2 s.2

namespace Progress

variable [EquivBEq α] {members : List α} {base? : α → Option α} {order : BaseOrder α}
  {turns : List (α × α)} {a b member : α}

section

variable (congr : ∀ a b, (a == b) = true → base? a = base? b)

include congr in
theorem closed (progress : Progress members base? order turns)
    (known : order.ordered.contains a = true) (based : Based members base? a b) :
    order.ordered.contains b = true := by
  obtain ⟨x, listed, same⟩ := List.contains_iff_exists_mem_beq.mp known
  rcases progress.edges x listed b (based.congr_left congr same) with before | ⟨r, turn, equal⟩
  · exact before.contains
  · -- The base of a turn was added with the turn.
    obtain ⟨added, edge, -⟩ := progress.turning r turn
    have base := (edge.congr_left congr (BEq.trans equal (BEq.symm same))).unique based
    rwa [← List.contains_congr base]

include congr in
theorem closed_path (progress : Progress members base? order turns)
    (known : order.ordered.contains a = true)
    (path : Relation.TransGen (Based members base?) a b) : order.ordered.contains b = true := by
  induction path with
  | single based => exact progress.closed congr known based
  | tail _ based ih => exact progress.closed congr ih based

include congr in
theorem visit (progress : Progress members base? order turns)
    (start : members.contains member = true) :
    ∃ more, Progress members base? (order.visit members base? [] member) (turns ++ more) := by
  obtain ⟨chain, closing, trail, result⟩ := visit_trail members base? [] order member
  obtain ⟨more, closes, short, turning, edges⟩ := trail.turns congr
  have fresh : ∀ a ∈ order.ordered, chain.contains a = false := by
    intro a listed
    rw [Bool.eq_false_iff]
    intro added
    have known : order.ordered.contains a = true := List.elem_eq_true_of_mem listed
    simp [(trail.fresh added).1] at known
  rw [result]
  refine ⟨more, ?distinct, ?inside, ?broken, ?turning, ?edges, ?apart⟩
  case distinct =>
    refine List.pairwise_append.mpr ⟨progress.distinct, trail.distinct, ?_⟩
    intro a listed b added
    rw [Bool.eq_false_iff]
    intro same
    simpa [fresh a listed] using List.contains_iff_exists_mem_beq.mpr ⟨b, added, same⟩
  case inside =>
    intro a listed
    rcases List.mem_append.mp listed with old | new
    · exact progress.inside a old
    · exact trail.inside start a new
  case broken => simp [progress.broken, closes]
  case turning =>
    intro r turn
    rcases List.mem_append.mp turn with old | new
    · obtain ⟨known, rest⟩ := progress.turning r old
      exact ⟨by rw [List.contains_append, known, Bool.true_or], rest⟩
    · obtain ⟨added, rest⟩ := turning r new
      exact ⟨by rw [List.contains_append, added, Bool.or_true], rest⟩
  case edges =>
    intro a listed b based
    rcases List.mem_append.mp listed with old | new
    · have known : order.ordered.contains a = true := List.elem_eq_true_of_mem old
      rcases progress.edges a old b based with before | ⟨r, turn, same⟩
      · exact .inl ((precedes_append_iff known).mpr before)
      · exact .inr ⟨r, List.mem_append_left _ turn, same⟩
    · rcases edges a new b based with before | ⟨r, turn, same⟩
      · exact .inl before
      · exact .inr ⟨r, List.mem_append_right _ turn, same⟩
  case apart =>
    -- What was ordered before leads only to what was ordered before, so a new circle is another.
    refine List.pairwise_append.mpr ⟨progress.apart, ?_, ?_⟩
    · match more, short with
      | [], _ => exact .nil
      | [r], _ => exact List.pairwise_singleton _ r
    · intro r old s new path
      have known := progress.closed_path congr (progress.turning r old).1 path
      simp [(trail.fresh (turning s new).1).1] at known

include congr in
theorem visits (progress : Progress members base? order turns) (rest : List α)
    (starts : ∀ a ∈ rest, members.contains a = true) :
    ∃ turns,
      Progress members base? (rest.foldl (BaseOrder.visit members base? []) order) turns := by
  induction rest generalizing order turns with
  | nil => exact ⟨turns, progress⟩
  | cons a rest ih =>
    obtain ⟨more, next⟩ := progress.visit congr (starts a List.mem_cons_self)
    exact ih next fun b listed => starts b (List.mem_cons_of_mem a listed)

include congr in
theorem onCycle (progress : Progress members base? order turns) {r : α × α} (turn : r ∈ turns) :
    OnCycle (Based members base?) r.2 := by
  obtain ⟨-, edge, back⟩ := progress.turning r turn
  exact back.trans_path congr (.single edge)

include congr in
theorem cycles_nodup (progress : Progress members base? order turns) :
    (turns.map fun r => cycleOf (Based members base?) r.2).Nodup := by
  refine List.pairwise_map.mpr (progress.apart.imp_of_mem ?_)
  intro r s _ turn apart same
  have own : s.2 ∈ cycleOf (Based members base?) s.2 := progress.onCycle congr turn
  rw [← same] at own
  exact apart own

include congr in
theorem turn_of_outOfOrder (progress : Progress members base? order turns)
    (known : order.ordered.contains a = true)
    (out : OutOfOrder (Based members base?) order.ordered a) :
    ∃ r ∈ turns, (r.1 == a) = true := by
  obtain ⟨b, based, late⟩ := out
  obtain ⟨x, listed, same⟩ := List.contains_iff_exists_mem_beq.mp known
  rcases progress.edges x listed b (based.congr_left congr same) with before | ⟨r, turn, equal⟩
  · exact absurd (before.congr_right (BEq.symm same)) late
  · exact ⟨r, turn, BEq.trans equal (BEq.symm same)⟩

include congr in
theorem turn_of_cycle (progress : Progress members base? order turns)
    (known : order.ordered.contains b = true)
    (path : Relation.TransGen (Based members base?) a b)
    (out : OutOfOrder (Based members base?) order.ordered b) :
    ∃ r ∈ turns, (r.1 == b) = true ∧ Relation.TransGen (Based members base?) a r.2 := by
  obtain ⟨r, turn, same⟩ := progress.turn_of_outOfOrder congr known out
  obtain ⟨-, edge, -⟩ := progress.turning r turn
  exact ⟨r, turn, same, .tail (transGen_congr_right path (BEq.symm same)) edge⟩

variable (complete : ∀ a, members.contains a = true → order.ordered.contains a = true)

include congr complete in
theorem baseFirst (progress : Progress members base? order turns)
    (member : members.contains a = true) (based : Based members base? a b)
    (apart : ¬Reaches (Based members base?) b a) : Precedes order.ordered b a := by
  by_contra late
  -- Otherwise the member is a turn, and from the base of a turn one gets back to it.
  obtain ⟨r, turn, same⟩ :=
    progress.turn_of_outOfOrder congr (complete a member) ⟨b, based, late⟩
  obtain ⟨-, edge, back⟩ := progress.turning r turn
  have base : (r.2 == b) = true := (edge.congr_left congr same).unique based
  apply apart
  rcases back with equal | path
  · exact .inl (BEq.trans (BEq.symm base) (BEq.trans equal same))
  · exact .inr (transGen_congr_right (transGen_congr_left congr path base) same)

include congr complete in
theorem mem_cycles (progress : Progress members base? order turns) (cycle : Set α) :
    cycle ∈ Cycles (Based members base?) ↔
      ∃ r ∈ turns, cycle = cycleOf (Based members base?) r.2 := by
  constructor
  · rintro ⟨a, round, rfl⟩
    obtain ⟨b, path, out⟩ := exists_outOfOrder round order.ordered
    obtain ⟨r, turn, -, below⟩ :=
      progress.turn_of_cycle congr (complete b (transGen_contains path)) path out
    exact ⟨r, turn, round.cycleOf_eq congr below⟩
  · rintro ⟨r, turn, rfl⟩
    exact ⟨r.2, progress.onCycle congr turn, rfl⟩

include congr complete in
theorem cycles_ncard (progress : Progress members base? order turns) :
    (Cycles (Based members base?)).ncard = turns.length := by
  classical
  have all : Cycles (Based members base?) =
      ↑(turns.map fun r => cycleOf (Based members base?) r.2).toFinset := by
    ext cycle
    simp [progress.mem_cycles congr complete cycle, eq_comm]
  rw [all, Set.ncard_coe_finset, List.toFinset_card_of_nodup (progress.cycles_nodup congr),
    List.length_map]

include congr complete in
theorem oneTurn (progress : Progress members base? order turns)
    (cycle : OnCycle (Based members base?) a) :
    ∃ b, b ∈ cycleOf (Based members base?) a ∧ OutOfOrder (Based members base?) order.ordered b ∧
      ∀ c, c ∈ cycleOf (Based members base?) a →
        OutOfOrder (Based members base?) order.ordered c → (c == b) = true := by
  obtain ⟨b, path, out⟩ := exists_outOfOrder cycle order.ordered
  refine ⟨b, path, out, ?_⟩
  intro c other late
  obtain ⟨r, turn, same, below⟩ :=
    progress.turn_of_cycle congr (complete b (transGen_contains path)) path out
  obtain ⟨s, turned, equal, under⟩ :=
    progress.turn_of_cycle congr (complete c (transGen_contains other)) other late
  -- Both turns lie on the circle of `a`, and no circle is broken twice.
  obtain rfl : r = s := List.inj_on_of_nodup_map (progress.cycles_nodup congr) turn turned
    ((cycle.cycleOf_eq congr below).symm.trans (cycle.cycleOf_eq congr under))
  exact BEq.trans (BEq.symm equal) same

end

end Progress

section Order

variable [EquivBEq α] {members : List α} {base? : α → Option α} {a : α}

theorem contains_visit {order : BaseOrder α} {member : α}
    (wanted : order.ordered.contains a = true ∨ (a == member) = true) :
    (order.visit members base? [] member).ordered.contains a = true := by
  obtain ⟨chain, closing, trail, result⟩ := visit_trail members base? [] order member
  rw [result, List.contains_append]
  rcases wanted with old | same
  · rw [old, Bool.true_or]
  · rcases trail.start with ⟨known, -, -⟩ | ⟨waits, -, -⟩ | added
    · rw [List.contains_congr same, known, Bool.true_or]
    · simp at waits
    · rw [List.contains_iff_exists_mem_beq.mpr ⟨member, added, same⟩, Bool.or_true]

theorem contains_visits (rest : List α) {order : BaseOrder α}
    (wanted : order.ordered.contains a = true ∨ rest.contains a = true) :
    (rest.foldl (visit members base? []) order).ordered.contains a = true := by
  induction rest generalizing order with
  | nil => simpa using wanted
  | cons member rest ih =>
    apply ih
    rw [List.contains_cons, Bool.or_eq_true, ← or_assoc] at wanted
    exact wanted.imp_left contains_visit

variable (congr : ∀ a b, (a == b) = true → base? a = base? b)

include congr in
theorem ofMembers_progress :
    ∃ turns, Progress members base? (ofMembers members base?) turns := by
  have empty : Progress members base? ⟨[], []⟩ [] :=
    ⟨.nil, by simp, rfl, by simp, by simp, .nil⟩
  exact empty.visits congr members fun a listed => List.elem_eq_true_of_mem listed

include congr in
theorem contains_ofMembers :
    (ofMembers members base?).ordered.contains a = true ↔ members.contains a = true := by
  obtain ⟨turns, progress⟩ : ∃ turns, Progress members base? (ofMembers members base?) turns :=
    ofMembers_progress congr
  constructor
  · intro known
    obtain ⟨x, listed, same⟩ := List.contains_iff_exists_mem_beq.mp known
    rw [List.contains_congr same]
    exact progress.inside x listed
  · intro listed
    exact contains_visits members (.inr listed)

include congr in
theorem ofMembers_basesFirst :
    BasesFirst (members.contains · = true) (Based members base?)
      (ofMembers members base?).ordered (ofMembers members base?).broken := by
  obtain ⟨turns, progress⟩ : ∃ turns, Progress members base? (ofMembers members base?) turns :=
    ofMembers_progress congr
  have complete : ∀ a, members.contains a = true →
      (ofMembers members base?).ordered.contains a = true :=
    fun a => (contains_ofMembers congr).mpr
  refine ⟨fun a => contains_ofMembers congr, progress.distinct, ?_, ?_, ?_, ?_, ?_⟩
  · intro a b member based apart
    exact progress.baseFirst congr complete member based apart
  · simp only [progress.broken, List.mem_map, forall_exists_index, and_imp]
    rintro a r turn rfl
    exact progress.onCycle congr turn
  · refine ⟨?_, fun cycle => ?_⟩
    · simpa [progress.broken, Function.comp_def] using progress.cycles_nodup congr
    · rw [progress.mem_cycles congr complete, progress.broken]
      simp only [List.mem_map, exists_exists_and_eq_and]
  · simp [progress.cycles_ncard congr complete, progress.broken]
  · intro a cycle
    exact progress.oneTurn congr complete cycle

end Order

end SchemaMigration.BaseOrder
