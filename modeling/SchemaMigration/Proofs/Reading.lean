import Mathlib.Data.Option.Basic
import Mathlib.Order.Basic
import SchemaMigration.Source.Cursor

set_option autoImplicit false

namespace SchemaMigration.Source

namespace Cursor

instance : Preorder Cursor where
  le_refl := Cursor.le_refl
  le_trans _ _ _ := Cursor.le_trans

theorem lexemeTo_eq {c d : Cursor} {s : List Char} (rest : c.rest = s ++ d.rest)
    (offset : d.offset = c.offset + Text.byteLength s) :
    c.lexemeTo d = ⟨⟨c.offset, d.offset⟩, String.ofList s⟩ := by
  have size : d.offset - c.offset = Text.byteLength s := by omega
  simp [lexemeTo, size, rest, Text.splitBytes?_byteLength_append]

theorem slice?_lexemeTo {source : List Char} {c d : Cursor} (start : ⟨source, 0⟩ ≤ c) (le : c ≤ d) :
    Text.slice? source c.offset d.offset = some (c.lexemeTo d).text.toList := by
  obtain ⟨before, rest, offset⟩ := start
  obtain ⟨s, rest', offset'⟩ := le
  rw [lexemeTo_eq rest' offset', offset', offset, Nat.zero_add]
  dsimp only at rest
  rw [rest, rest', String.toList_ofList]
  exact Text.slice?_append before s d.rest

theorem offset_le {c d : Cursor} (le : c ≤ d) : c.offset ≤ d.offset := by
  obtain ⟨s, -, offset⟩ := le
  omega

theorem offset_eq {c d : Cursor} (le : c ≤ d) {s : List Char} (rest : c.rest = s ++ d.rest) :
    d.offset = c.offset + Text.byteLength s := by
  obtain ⟨t, rest', offset⟩ := le
  have same : t ++ d.rest = s ++ d.rest := rest'.symm.trans rest
  rwa [List.append_cancel_right same] at offset

theorem skip_eq_drop (n : Nat) (c : Cursor) :
    c.skip n = ⟨c.rest.drop n, c.offset + Text.byteLength (c.rest.take n)⟩ := by
  induction n generalizing c with
  | zero => simp [skip]
  | succ n ih =>
    obtain ⟨_ | ⟨first, rest⟩, offset⟩ := c
    · simp [skip]
    · simp [skip, ih, Nat.add_assoc]

theorem lexemeTo_skip (n : Nat) (c : Cursor) :
    c.lexemeTo (c.skip n) =
      ⟨⟨c.offset, (c.skip n).offset⟩, String.ofList (c.rest.take n)⟩ := by
  refine lexemeTo_eq ?_ ?_
  · rw [skip_eq_drop, List.take_append_drop]
  · rw [skip_eq_drop]

end Cursor

namespace Parser

variable {α β : Type} {c : Cursor}

-- Whatever the parser gives from a cursor on is as told.
def Ensures (p : Parser α) (c : Cursor) (Told : α → Cursor → Prop) : Prop :=
  ∀ a d, p.run c = some (a, d) → Told a d

section Steps

variable {p : Parser α} {First : α → Cursor → Prop} {Told : β → Cursor → Prop}

theorem Ensures.bind {next : α → Parser β} (first : p.Ensures c First)
    (later : ∀ a d, c ≤ d → First a d → (next a).Ensures d Told) : (p >>= next).Ensures c Told := by
  intro b e done
  rw [run_bind] at done
  obtain ⟨⟨a, d⟩, read, done⟩ := Option.bind_eq_some_iff.mp done
  exact later a d (p.forward read) (first a d read) b e done

theorem ensures_true (p : Parser α) (c : Cursor) : p.Ensures c fun _ _ => True :=
  fun _ _ _ => trivial

theorem ensures_bind {next : α → Parser β}
    (later : ∀ a d, c ≤ d → (next a).Ensures d Told) : (p >>= next).Ensures c Told :=
  (ensures_true p c).bind fun a d le _ => later a d le

theorem Ensures.mono {Other : α → Cursor → Prop} (told : p.Ensures c First)
    (weaker : ∀ a d, c ≤ d → First a d → Other a d) : p.Ensures c Other :=
  fun a d read => weaker a d (p.forward read) (told a d read)

theorem ensures_pure {a : α} (told : First a c) : (pure a : Parser α).Ensures c First := by
  rintro _ _ ⟨⟩
  exact told

theorem Ensures.map {f : α → β} (told : p.Ensures c fun a d => Told (f a) d) :
    (f <$> p).Ensures c Told :=
  told.bind fun _ _ _ holds => ensures_pure holds

theorem ensures_failure : (failure : Parser α).Ensures c First :=
  nofun

theorem Ensures.orElse {other : Parser α} (told : p.Ensures c First)
    (told' : other.Ensures c First) : (p <|> other).Ensures c First := by
  intro a d done
  rw [run_orElse] at done
  rcases Option.or_eq_some_iff.mp done with read | ⟨-, read⟩
  · exact told a d read
  · exact told' a d read

theorem ensures_seqRight {other : Parser β} (later : ∀ d, c ≤ d → other.Ensures d Told) :
    (p *> other).Ensures c Told :=
  ensures_bind fun _ d le => later d le

theorem ensures_here {next : Cursor → Parser β} (later : (next c).Ensures c Told) :
    (here >>= next).Ensures c Told := by
  intro b d done
  exact later b d done

theorem Ensures.ite {test : Prop} [Decidable test] {other : Parser α} (told : p.Ensures c First)
    (told' : other.Ensures c First) : (if test then p else other).Ensures c First := by
  split
  · exact told
  · exact told'

theorem ensures_if {test : Prop} [Decidable test] {later : Parser β}
    (told : ∀ d, c ≤ d → later.Ensures d Told) :
    (if test then p >>= fun _ => later else later).Ensures c Told := by
  split
  · exact ensures_bind fun _ d le => told d le
  · exact told c le_rfl

theorem Ensures.either {test : Prop} [Decidable test] {other : Parser α} {next : α → Parser β}
    (first : p.Ensures c First) (second : other.Ensures c First)
    (later : ∀ a d, c ≤ d → First a d → (next a).Ensures d Told) :
    (if test then p >>= next else other >>= next).Ensures c Told := by
  split
  · exact first.bind later
  · exact second.bind later

theorem ensures_guard {test : Prop} [Decidable test] {later : Unit → Parser β}
    (told : test → (later ()).Ensures c Told) : (guard test >>= later).Ensures c Told := by
  change ((if test then pure () else failure) >>= later).Ensures c Told
  split
  next holds => exact told holds
  next =>
    intro b d done
    cases done

end Steps

section Places

theorem ensures_located {p : Parser α} {next : α × Lexeme → Parser β} {Told : β → Cursor → Prop}
    (Inner : Cursor → α → Cursor → Prop) (inner : ∀ i, c ≤ i → p.Ensures i (Inner i))
    (later : ∀ a i d, c ≤ i → i ≤ d → Inner i a d → (next (a, i.lexemeTo d)).Ensures d Told) :
    (located p >>= next).Ensures c Told := by
  have first : (located p).Ensures c fun r d =>
      ∃ i, c ≤ i ∧ i ≤ d ∧ r.2 = i.lexemeTo d ∧ Inner i r.1 d := by
    refine ensures_bind fun _ i le => ensures_here ?_
    refine (inner i le).bind fun a d le' told => ensures_here (ensures_pure ?_)
    exact ⟨i, le, le', rfl, told⟩
  refine first.bind ?_
  rintro ⟨a, _⟩ d - ⟨i, ci, id, rfl, told⟩
  exact later a i d ci id told

theorem ensures_extent (p : Parser α) (c : Cursor) :
    (extent p).Ensures c fun l d => ∃ i, c ≤ i ∧ i ≤ d ∧ l = i.lexemeTo d :=
  ensures_located (fun _ _ _ => True) (fun i _ => ensures_true p i) fun _ i _ ci id _ =>
    ensures_pure ⟨i, ci, id, rfl⟩

theorem ensures_token (length? : List Char → Option Nat) (c : Cursor) :
    (token length?).Ensures c fun l d => ∃ i n, c ≤ i ∧ length? i.rest = some n ∧ d = i.skip n ∧
      l = i.lexemeTo d := by
  refine ensures_bind fun _ i le => ensures_here ?_
  split
  next n found =>
    rintro l d ⟨⟩
    exact ⟨i, n, le, found, rfl, (i.lexemeTo_skip n).symm⟩
  next => exact ensures_failure

theorem ensures_comment (c : Cursor) :
    comment.Ensures c fun l d => ∃ i, c ≤ i ∧ i ≤ d ∧ l = i.lexemeTo d := by
  refine ensures_bind fun _ i le => ensures_here ?_
  split
  next n found =>
    rintro l d ⟨⟩
    exact ⟨i, le, i.le_skip n, rfl⟩
  next => exact ensures_failure

end Places

end Parser

def InOrder {α : Type} (Read : Cursor → α → Cursor → Prop) : Cursor → List α → Cursor → Prop
  | c, [], d => c ≤ d
  | c, a :: rest, d => ∃ i j, c ≤ i ∧ i ≤ j ∧ Read i a j ∧ InOrder Read j rest d

namespace InOrder

variable {α : Type} {Read : Cursor → α → Cursor → Prop} {as : List α} {c d : Cursor}

theorem le (order : InOrder Read c as d) : c ≤ d := by
  induction as generalizing c with
  | nil => exact order
  | cons a rest ih =>
    obtain ⟨i, j, ci, ij, -, later⟩ := order
    exact ci.trans (ij.trans (ih later))

theorem widen (order : InOrder Read c as d) {b e : Cursor} (left : b ≤ c) (right : d ≤ e) :
    InOrder Read b as e := by
  induction as generalizing b c with
  | nil => exact left.trans (le_trans order right)
  | cons a rest ih =>
    obtain ⟨i, j, ci, ij, read, later⟩ := order
    exact ⟨i, j, left.trans ci, ij, read, ih later le_rfl⟩

theorem of_mem (order : InOrder Read c as d) {a : α} (member : a ∈ as) :
    ∃ i j, c ≤ i ∧ i ≤ j ∧ j ≤ d ∧ Read i a j := by
  induction as generalizing c with
  | nil => cases member
  | cons first rest ih =>
    obtain ⟨i, j, ci, ij, read, later⟩ := order
    rcases List.mem_cons.mp member with rfl | further
    · exact ⟨i, j, ci, ij, later.le, read⟩
    · obtain ⟨i', j', ji', ij', jd', read'⟩ := ih later further
      exact ⟨i', j', ci.trans (ij.trans ji'), ij', jd', read'⟩

theorem filterMap {β : Type} {Kept : Cursor → β → Cursor → Prop} {f : α → Option β}
    (order : InOrder Read c as d) (keeps : ∀ i a j b, i ≤ j → Read i a j → b ∈ f a → Kept i b j) :
    InOrder Kept c (as.filterMap f) d := by
  induction as generalizing c with
  | nil => exact order
  | cons a rest ih =>
    obtain ⟨i, j, ci, ij, read, later⟩ := order
    cases kept : f a with
    | none => simpa [kept] using (ih later).widen (ci.trans ij) le_rfl
    | some b => simpa [kept] using ⟨i, j, ci, ij, keeps i a j b ij read kept, ih later⟩

theorem mono {Other : Cursor → α → Cursor → Prop} (order : InOrder Read c as d)
    (weaker : ∀ i a j, Read i a j → Other i a j) : InOrder Other c as d := by
  induction as generalizing c with
  | nil => exact order
  | cons a rest ih =>
    obtain ⟨i, j, ci, ij, read, later⟩ := order
    exact ⟨i, j, ci, ij, weaker i a j read, ih later⟩

theorem sublist (order : InOrder Read c as d) {some : List α} (kept : some.Sublist as) :
    InOrder Read c some d := by
  induction kept generalizing c with
  | slnil => exact order
  | cons a kept ih =>
    obtain ⟨i, j, ci, ij, -, later⟩ := order
    exact (ih later).widen (ci.trans ij) le_rfl
  | cons_cons a kept ih =>
    obtain ⟨i, j, ci, ij, read, later⟩ := order
    exact ⟨i, j, ci, ij, read, ih later⟩

theorem pairwise (order : InOrder Read c as d) (place : α → Span)
    (told : ∀ i a j, Read i a j → place a = ⟨i.offset, j.offset⟩) :
    as.Pairwise fun a b => (place a).stop ≤ (place b).start := by
  induction as generalizing c with
  | nil => exact .nil
  | cons a rest ih =>
    obtain ⟨i, j, ci, ij, read, later⟩ := order
    refine .cons (fun b member => ?_) (ih later)
    obtain ⟨i', j', ji', -, -, read'⟩ := later.of_mem member
    rw [told i a j read, told i' b j' read']
    exact Cursor.offset_le ji'

end InOrder

namespace Parser

variable {α β : Type} {c : Cursor}

theorem Ensures.optionally {p : Parser α} {Told : α → Cursor → Prop} (told : p.Ensures c Told) :
    (optionally p).Ensures c fun a? d => ∀ a ∈ a?, Told a d := by
  refine Ensures.orElse (Ensures.map (told.mono ?_)) (ensures_pure nofun)
  rintro a d - holds _ ⟨⟩
  exact holds

-- Items that are kept under `f` come in order; the others only move the cursor.
theorem ensures_repeatedly {Read : Cursor → β → Cursor → Prop} {f : α → Option β}
    {step : Parser (Option α)}
    (each : ∀ c, step.Ensures c fun a? d => ∀ a ∈ a?, ∀ b ∈ f a,
      ∃ i j, c ≤ i ∧ i ≤ j ∧ j ≤ d ∧ Read i b j) (bound : Nat) (c : Cursor) :
    (repeatedly bound step).Ensures c fun as d => InOrder Read c (as.filterMap f) d := by
  induction bound generalizing c with
  | zero => exact ensures_failure
  | succ bound ih =>
    refine (each c).bind fun a? m cm told => ?_
    cases a? with
    | none => exact ensures_pure cm
    | some a =>
      refine (ih m).bind fun as d _ order => ensures_pure ?_
      cases kept : f a with
      | none => simpa [kept] using order.widen cm le_rfl
      | some b =>
        obtain ⟨i, j, ci, ij, jm, read⟩ := told a rfl b kept
        simpa [kept] using ⟨i, j, ci, ij, read, order.widen jm le_rfl⟩

theorem ensures_many {Read : Cursor → α → Cursor → Prop} {p : Parser α}
    (each : ∀ c, p.Ensures c fun a d => Read c a d) (bound : Nat) (c : Cursor) :
    (many bound p).Ensures c fun as d => InOrder Read c as d := by
  have items : (many bound p).Ensures c fun as d => InOrder Read c (as.filterMap some) d := by
    refine ensures_repeatedly (fun c => (each c).optionally.mono ?_) bound c
    rintro a? d cd told a held _ ⟨⟩
    exact ⟨c, d, le_rfl, cd, le_rfl, told a held⟩
  simpa using items

theorem ensures_growing {Holds : α → Cursor → Prop} {step : α → Parser (Option α)} {start : Cursor}
    (keeps : ∀ a c d, c ≤ d → Holds a c → Holds a d)
    (each : ∀ a c, start ≤ c → Holds a c → (step a).Ensures c fun b? d => ∀ b ∈ b?, Holds b d)
    (bound : Nat) {a : α} {c : Cursor} (le : start ≤ c) (holds : Holds a c) :
    (growing bound step a).Ensures c Holds := by
  induction bound generalizing a c with
  | zero => exact ensures_failure
  | succ bound ih =>
    refine (each a c le holds).bind fun b? d cd told => ?_
    cases b? with
    | none => exact ensures_pure (keeps a c d cd holds)
    | some b => exact ih (le.trans cd) (told b rfl)

end Parser

end SchemaMigration.Source
