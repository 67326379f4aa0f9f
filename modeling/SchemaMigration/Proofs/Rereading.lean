import Mathlib.Data.List.Forall2
import SchemaMigration.Proofs.Reading
import SchemaMigration.Proofs.Tokens
import SchemaMigration.Source.Grammar.Basic

set_option autoImplicit false

namespace SchemaMigration.Source

section Blanks

def IsBlank (s : List Char) : Prop :=
  ∀ c ∈ s, isSpace c = true

-- Neither white space nor a comment comes first.
def IsSolid (s : List Char) : Prop :=
  triviaLength s = 0

theorem isBlank_nil : IsBlank [] :=
  nofun

theorem isBlank_space : IsBlank [' '] :=
  List.forall_mem_singleton.mpr (by decide)

theorem intercalate_cons_eq {α : Type} (mark first : List α) (others : List (List α)) :
    mark.intercalate (first :: others) = first ++ others.flatMap (mark ++ ·) := by
  induction others generalizing first with
  | nil => simp
  | cons next rest ih => simp [List.intercalate_cons_cons, ih]

theorem triviaLength_append {blank : List Char} (blanks : IsBlank blank) (s : List Char) :
    triviaLength (blank ++ s) = blank.length + triviaLength s := by
  induction blank with
  | nil => simp
  | cons c rest ih =>
    have space := blanks c List.mem_cons_self
    have later := ih fun x member => blanks x (List.mem_cons_of_mem c member)
    rw [triviaLength] at later ⊢
    rw [List.cons_append, triviaFrom, if_pos space, later, List.length_cons]
    omega

theorem commentLength?_cons {c : Char} (plain : c ≠ '/') (s : List Char) :
    commentLength? (c :: s) = none := by
  unfold commentLength?
  split <;> simp_all

theorem isSolid_cons {c : Char} {s : List Char} (dark : isSpace c = false) (plain : c ≠ '/') :
    IsSolid (c :: s) := by
  rw [IsSolid, triviaLength, triviaFrom, if_neg (by simp [dark]), commentLength?_cons plain]

theorem isSolid_nil : IsSolid [] := rfl

theorem triviaFrom_drop (inside : Nat) (s : List Char) :
    IsSolid (s.drop (triviaFrom inside s)) := by
  fun_induction triviaFrom inside s with
  | case1 => exact isSolid_nil
  | case2 inside c rest ih => exact ih
  | case3 c rest space ih => exact ih
  | case4 c rest dark n found ih => exact ih
  | case5 c rest dark none =>
    rw [List.drop_zero, IsSolid, triviaLength, triviaFrom, if_neg dark]
    split
    next n found => exact absurd found (none n)
    next => rfl

theorem drop_triviaLength {blank s : List Char} (blanks : IsBlank blank) (solid : IsSolid s) :
    (blank ++ s).drop (triviaLength (blank ++ s)) = s := by
  rw [triviaLength_append blanks, solid, Nat.add_zero, List.drop_left]

theorem StartsName.isSolid {s : List Char} (starts : StartsName s) : IsSolid s := by
  obtain ⟨c, rest, rfl, start | rfl⟩ := starts
  · have named : isNameChar c = true := by
      simp only [isNameStart, Bool.and_eq_true] at start
      exact start.1
    obtain ⟨dark, plain⟩ := isSpace_of_isNameChar named
    refine isSolid_cons dark ?_
    rintro rfl
    exact absurd plain (by decide)
  · exact isSolid_cons (by decide) (by decide)

end Blanks

namespace Parser

variable {α β : Type}

-- Wherever the text `s` stands before `rest`, the parser reads `s` and gives something as told.
def Takes (p : Parser α) (s rest : List Char) (Told : α → Prop) : Prop :=
  ∀ offset, ∃ a, p.run ⟨s ++ rest, offset⟩ = some (a, ⟨rest, offset + Text.byteLength s⟩) ∧ Told a

def Peeks (p : Parser α) (s : List Char) (a : α) : Prop :=
  ∀ offset, p.run ⟨s, offset⟩ = some (a, ⟨s, offset⟩)

def Refuses (p : Parser α) (s : List Char) : Prop :=
  ∀ offset, p.run ⟨s, offset⟩ = none

section Steps

variable {p : Parser α} {next : α → Parser β} {s t rest : List Char} {First : α → Prop}
  {Told : β → Prop}

theorem Takes.bind (first : p.Takes s (t ++ rest) First)
    (later : ∀ a, First a → (next a).Takes t rest Told) :
    (p >>= next).Takes (s ++ t) rest Told := by
  intro offset
  obtain ⟨a, read, told⟩ := first offset
  obtain ⟨b, done, result⟩ := later a told (offset + Text.byteLength s)
  refine ⟨b, ?_, result⟩
  rw [run_bind, List.append_assoc, read, Option.bind_some, done, Text.byteLength_append,
    Nat.add_assoc]

theorem Peeks.bind {a : α} (first : p.Peeks (t ++ rest) a)
    (later : (next a).Takes t rest Told) : (p >>= next).Takes t rest Told := by
  intro offset
  obtain ⟨b, done, result⟩ := later offset
  exact ⟨b, by rw [run_bind, first, Option.bind_some, done], result⟩

theorem Takes.bind_nil (first : p.Takes s rest First)
    (later : ∀ a, First a → (next a).Takes [] rest Told) : (p >>= next).Takes s rest Told := by
  have both := Takes.bind (t := []) first later
  rwa [List.append_nil] at both

theorem Peeks.bind_peeks {a : α} {b : β} (first : p.Peeks s a) (later : (next a).Peeks s b) :
    (p >>= next).Peeks s b := by
  intro offset
  rw [run_bind, first, Option.bind_some, later]

theorem peeks_pure (b : β) (s : List Char) : (pure b : Parser β).Peeks s b :=
  fun _ => rfl

theorem Peeks.takes {a : α} (first : p.Peeks rest a) (told : First a) : p.Takes [] rest First :=
  fun offset => ⟨a, first offset, told⟩

theorem takes_pure {b : β} (told : Told b) : (pure b : Parser β).Takes [] rest Told :=
  fun _ => ⟨b, rfl, told⟩

theorem Takes.mono {Other : α → Prop} (told : p.Takes s rest First)
    (weaker : ∀ a, First a → Other a) : p.Takes s rest Other := by
  intro offset
  obtain ⟨a, read, first⟩ := told offset
  exact ⟨a, read, weaker a first⟩

theorem Takes.map {f : α → β} (told : p.Takes s rest fun a => Told (f a)) :
    (f <$> p).Takes s rest Told := by
  intro offset
  obtain ⟨a, read, holds⟩ := told offset
  exact ⟨f a, (run_bind p (pure ∘ f) _).trans (by rw [read]; rfl), holds⟩

theorem Takes.gives {f : α → β} (told : p.Takes s rest First)
    (holds : ∀ a, First a → Told (f a)) : (p >>= fun a => pure (f a)).Takes s rest Told :=
  Takes.map (told.mono holds)

theorem Takes.discard (told : p.Takes s rest First) :
    (discard p).Takes s rest fun _ => True :=
  Takes.map (told.mono fun _ _ => trivial)

theorem Takes.seqRight {other : Parser β} (first : p.Takes s (t ++ rest) First)
    (later : other.Takes t rest Told) : (p *> other).Takes (s ++ t) rest Told :=
  first.bind fun _ _ => later

theorem Takes.orElse {other : Parser α} (told : p.Takes s rest First) :
    (p <|> other).Takes s rest First := by
  intro offset
  obtain ⟨a, read, first⟩ := told offset
  exact ⟨a, by rw [run_orElse, read, Option.some_or], first⟩

theorem Refuses.orElse_takes {other : Parser α} (fails : p.Refuses (s ++ rest))
    (told : other.Takes s rest First) : (p <|> other).Takes s rest First := by
  intro offset
  obtain ⟨a, read, first⟩ := told offset
  exact ⟨a, by rw [run_orElse, fails, Option.none_or, read], first⟩

theorem takes_guard {test : Prop} [Decidable test] {later : Unit → Parser β} (holds : test)
    (told : (later ()).Takes s rest Told) : (guard test >>= later).Takes s rest Told := by
  rw [guard, if_pos holds]
  exact told

theorem Refuses.bind (fails : p.Refuses s) : (p >>= next).Refuses s := by
  intro offset
  rw [run_bind, fails, Option.bind_none]

theorem Takes.bind_refuses (first : p.Takes s rest First)
    (later : ∀ a, First a → (next a).Refuses rest) : (p >>= next).Refuses (s ++ rest) := by
  intro offset
  obtain ⟨a, read, told⟩ := first offset
  rw [run_bind, read, Option.bind_some, later a told]

theorem Peeks.bind_refuses {a : α} (first : p.Peeks s a) (later : (next a).Refuses s) :
    (p >>= next).Refuses s := by
  intro offset
  rw [run_bind, first, Option.bind_some, later]

theorem Refuses.orElse {other : Parser α} (fails : p.Refuses s) (fails' : other.Refuses s) :
    (p <|> other).Refuses s := by
  intro offset
  rw [run_orElse, fails, fails', Option.none_or]

theorem refuses_guard {test : Prop} [Decidable test] {later : Unit → Parser β} (fails : ¬test) :
    (guard test >>= later).Refuses s := by
  intro offset
  rw [guard, if_neg fails]
  rfl

theorem Refuses.guard_bind {test : Prop} [Decidable test] {later : Unit → Parser β}
    (fails : (later ()).Refuses s) : (guard test >>= later).Refuses s := by
  by_cases holds : test
  · rw [guard, if_pos holds]
    exact fails
  · exact refuses_guard holds

theorem refuses_failure : (failure : Parser α).Refuses s :=
  fun _ => rfl

theorem Takes.optionally (told : p.Takes s rest First) :
    (optionally p).Takes s rest fun a? => ∃ a, a? = some a ∧ First a :=
  Takes.orElse (Takes.map (told.mono fun a first => ⟨a, rfl, first⟩))

theorem Refuses.optionally (fails : p.Refuses s) : (optionally p).Peeks s none := by
  intro offset
  rw [Parser.optionally, run_orElse]
  change ((p >>= _).run _).or _ = _
  rw [fails.bind, Option.none_or]
  rfl

end Steps

section Tokens

variable {blank s rest : List Char}

theorem takes_skip (s rest : List Char) : (skip s.length).Takes s rest fun _ => True :=
  fun offset => ⟨(), congrArg (fun c => some ((), c)) (Cursor.skip_append s rest offset), trivial⟩

theorem takes_trivia (blanks : IsBlank blank) (solid : IsSolid rest) :
    trivia.Takes blank rest fun _ => True := by
  intro offset
  refine ⟨(), ?_, trivial⟩
  change some ((), Cursor.skip (triviaLength (blank ++ rest)) ⟨blank ++ rest, offset⟩) = _
  rw [triviaLength_append blanks, solid, Nat.add_zero, Cursor.skip_append]

theorem peeks_ahead (blanks : IsBlank blank) (solid : IsSolid s) : ahead.Peeks (blank ++ s) s := by
  intro offset
  change some (_, _) = _
  rw [Cursor.ahead, drop_triviaLength blanks solid]

theorem peeks_lookingAt (text : String) (blanks : IsBlank blank) (solid : IsSolid s) :
    (lookingAt text).Peeks (blank ++ s) (text.toList.isPrefixOf s) :=
  (peeks_ahead blanks solid).bind_peeks (peeks_pure _ _)

theorem peeks_lookingAt_other {text : String} {x c : Char} (single : text.toList = [x])
    (differ : x ≠ c) (blanks : IsBlank blank) (solid : IsSolid (c :: s)) :
    (lookingAt text).Peeks (blank ++ c :: s) false := by
  have looking := peeks_lookingAt text blanks solid
  have other : [x].isPrefixOf (c :: s) = false := by simp [List.isPrefixOf, differ]
  rwa [single, other] at looking

theorem takes_token {length? : List Char → Option Nat} (blanks : IsBlank blank)
    (solid : IsSolid (s ++ rest)) (length : length? (s ++ rest) = some s.length) :
    (token length?).Takes (blank ++ s) rest (·.text = String.ofList s) := by
  unfold token
  refine (takes_trivia blanks solid).bind fun _ _ offset => ?_
  refine ⟨⟨⟨offset, offset + Text.byteLength s⟩, String.ofList s⟩, ?_, rfl⟩
  simp only [run_bind, here, Option.bind_some, length, skip, Cursor.skip_append, List.take_left]
  rfl

theorem refuses_token {length? : List Char → Option Nat} (blanks : IsBlank blank)
    (solid : IsSolid s) (none : length? s = none) : (token length?).Refuses (blank ++ s) := by
  unfold token
  refine (takes_trivia blanks solid).bind_refuses fun _ _ offset => ?_
  simp only [run_bind, here, Option.bind_some, none]
  rfl

theorem takes_word (blanks : IsBlank blank) (name : IsName s) (ends : EndsName rest) :
    word.Takes (blank ++ s) rest (·.text = String.ofList s) :=
  takes_token blanks (name.startsName.append rest).isSolid (name.nameLength?_append ends)

theorem peeks_nextWord (blanks : IsBlank blank) (name : IsName s) (ends : EndsName rest) :
    nextWord.Peeks (blank ++ (s ++ rest)) (String.ofList s) := by
  have solid := (name.startsName.append rest).isSolid
  intro offset
  change some (_, _) = _
  simp only [Cursor.word, Cursor.ahead, drop_triviaLength blanks solid,
    name.nameLength?_append ends, List.take_left]

theorem peeks_nextWord_none (blanks : IsBlank blank) (solid : IsSolid s)
    (none : nameLength? s = none) : nextWord.Peeks (blank ++ s) "" := by
  intro offset
  change some (_, _) = _
  simp only [Cursor.word, Cursor.ahead, drop_triviaLength blanks solid, none]

theorem peeks_nextWord_text (text : String) (blanks : IsBlank blank) (name : IsName text.toList)
    (ends : EndsName rest) : nextWord.Peeks (blank ++ text.toList ++ rest) text := by
  have next := peeks_nextWord blanks name ends
  rwa [← List.append_assoc, String.ofList_toList] at next

theorem takes_keyword (text : String) (blanks : IsBlank blank) (name : IsName text.toList)
    (ends : EndsName rest) : (keyword text).Takes (blank ++ text.toList) rest fun _ => True := by
  refine (peeks_nextWord_text text blanks name ends).bind (takes_guard (beq_self_eq_true text) ?_)
  exact Takes.map ((takes_word blanks name ends).mono fun _ _ => trivial)

theorem peeks_nextWord_solid (text : String) (name : IsName text.toList) (ends : EndsName rest) :
    nextWord.Peeks (text.toList ++ rest) text := by
  have next := peeks_nextWord_text text isBlank_nil name ends
  rwa [List.nil_append] at next

theorem takes_keyword_solid (text : String) (name : IsName text.toList) (ends : EndsName rest) :
    (keyword text).Takes text.toList rest fun _ => True := by
  have read := takes_keyword text isBlank_nil name ends
  rwa [List.nil_append] at read

theorem Peeks.refuses_keyword {text other : String} (next : nextWord.Peeks s other)
    (differ : other ≠ text) : (keyword text).Refuses s :=
  next.bind_refuses (refuses_guard (by simpa using differ))

theorem takes_symbol (text : String) (blanks : IsBlank blank)
    (solid : IsSolid (text.toList ++ rest)) :
    (symbol text).Takes (blank ++ text.toList) rest fun _ => True := by
  have looking := peeks_lookingAt text blanks solid
  rw [← List.append_assoc] at looking
  refine looking.bind (takes_guard ?_ ?_)
  · exact List.isPrefixOf_iff_prefix.mpr (List.prefix_append _ _)
  · exact (takes_trivia blanks solid).bind fun _ _ => takes_skip text.toList rest

theorem Peeks.refuses_symbol {text : String} (looking : (lookingAt text).Peeks s false) :
    (symbol text).Refuses s :=
  looking.bind_refuses (refuses_guard (by simp))

theorem Takes.located {p : Parser α} {Told : α → Prop} (blanks : IsBlank blank)
    (solid : IsSolid (s ++ rest)) (told : p.Takes s rest Told) :
    (located p).Takes (blank ++ s) rest fun read =>
      Told read.1 ∧ read.2.text = String.ofList s := by
  unfold Parser.located
  refine (takes_trivia blanks solid).bind fun _ _ offset => ?_
  obtain ⟨a, read, holds⟩ := told offset
  have place : Cursor.lexemeTo ⟨s ++ rest, offset⟩ ⟨rest, offset + Text.byteLength s⟩ =
      ⟨⟨offset, offset + Text.byteLength s⟩, String.ofList s⟩ :=
    Cursor.lexemeTo_eq rfl rfl
  refine ⟨(a, ⟨⟨offset, offset + Text.byteLength s⟩, String.ofList s⟩), ?_, holds, rfl⟩
  simp only [run_bind, here, Option.bind_some, read, ← place]
  rfl

theorem Takes.located_solid {p : Parser α} {Told : α → Prop} (solid : IsSolid (s ++ rest))
    (told : p.Takes s rest Told) :
    (Parser.located p).Takes s rest fun read => Told read.1 ∧ read.2.text = String.ofList s :=
  Takes.located isBlank_nil solid told

theorem Takes.extent_solid {p : Parser α} {Told : α → Prop} (solid : IsSolid (s ++ rest))
    (told : p.Takes s rest Told) : (extent p).Takes s rest (·.text = String.ofList s) :=
  (told.located_solid solid).gives fun _ read => read.2

end Tokens

section Lists

variable {step : Parser (Option α)} {s t rest : List Char} {bound : Nat}

theorem Peeks.repeatedly (done : step.Peeks rest none) (bound : Nat) :
    (repeatedly (bound + 1) step).Peeks rest [] := by
  rw [Parser.repeatedly]
  exact done.bind_peeks (peeks_pure _ _)

theorem Takes.repeatedly_cons {Read : α → Prop} {Told : List α → Prop}
    (first : step.Takes s (t ++ rest) fun a? => ∃ a, a? = some a ∧ Read a)
    (later : (repeatedly bound step).Takes t rest Told) :
    (repeatedly (bound + 1) step).Takes (s ++ t) rest fun as =>
      ∃ a more, as = a :: more ∧ Read a ∧ Told more := by
  rw [repeatedly]
  refine first.bind ?_
  rintro _ ⟨a, rfl, read⟩
  exact later.gives fun more told => ⟨a, more, rfl, read, told⟩

end Lists

end Parser

open Source.Parser

theorem StartsName.peeks_lookingAt {text : String} {c : Char} {blank s : List Char}
    (starts : StartsName s) (single : text.toList = [c])
    (dark : ¬(isNameStart c = true ∨ c = '\\')) (blanks : IsBlank blank) :
    (lookingAt text).Peeks (blank ++ s) false := by
  have solid := starts.isSolid
  obtain ⟨x, rest, rfl, start⟩ := starts
  refine peeks_lookingAt_other single ?_ blanks solid
  rintro rfl
  exact dark start

namespace Grammar

variable {α : Type} {g : Grammar}

section Separated

variable {γ : Type} {text : γ → List Char} {Read : γ → α → Prop} {item : Parser α} {close : String}
  {stop : List Char}

def EndsItem (stop after : List Char) : Prop :=
  (∃ more, after = ',' :: more) ∨ after = stop

structure ReadsItem (item : Parser α) (close : String) (stop s : List Char) (Read : α → Prop) :
    Prop where
  opens : ∀ after, (lookingAt close).Peeks (s ++ after) false
  takes : ∀ after, EndsItem stop after → item.Takes s after Read

structure ClosesList (close : String) (stop : List Char) : Prop where
  closes : (lookingAt close).Peeks stop true
  ends : (lookingAt ",").Peeks stop false

def separatedStep (close : String) (item : Parser α) : Parser (Option α) := do
  if ← lookingAt close then return none
  else
    let value ← item
    if ← lookingAt "," then symbol "," else guard (← lookingAt close)
    return some value

theorem separated_eq : g.separated close item = do
    let items ← repeatedly g.bound (separatedStep close item)
    symbol close
    return items :=
  rfl

variable {s : List Char} {Given : α → Prop}

theorem ReadsItem.takes_step (reads : ReadsItem item close stop s Given) (more : List Char) :
    (separatedStep close item).Takes (s ++ [',']) more fun a? => ∃ a, a? = some a ∧ Given a := by
  have comma : IsSolid (',' :: more) := isSolid_cons (by decide) (by decide)
  have opens := reads.opens ([','] ++ more)
  rw [← List.append_assoc] at opens
  refine opens.bind ?_
  refine (reads.takes (',' :: more) (.inl ⟨more, rfl⟩)).bind fun a given => ?_
  refine (peeks_lookingAt "," isBlank_nil comma).bind (t := [',']) ?_
  exact (takes_symbol "," isBlank_nil comma).gives fun _ _ => ⟨a, rfl, given⟩

theorem ReadsItem.takes_last (reads : ReadsItem item close stop s Given)
    (closing : ClosesList close stop) :
    (separatedStep close item).Takes s stop fun a? => ∃ a, a? = some a ∧ Given a := by
  refine (reads.opens stop).bind ?_
  refine (reads.takes stop (.inr rfl)).bind_nil fun a given => ?_
  refine closing.ends.bind (t := []) ?_
  refine closing.closes.bind (t := []) ?_
  exact takes_guard rfl (takes_pure ⟨a, rfl, given⟩)

theorem takes_items {x : γ} {xs : List γ} {bound : Nat} (bounded : xs.length + 1 < bound)
    (closing : ClosesList close stop)
    (each : ∀ y ∈ x :: xs, ReadsItem item close stop (text y) (Read y)) :
    (repeatedly bound (separatedStep close item)).Takes ([','].intercalate ((x :: xs).map text))
      stop (List.Forall₂ Read (x :: xs)) := by
  induction xs generalizing x bound with
  | nil =>
    have reads := each x List.mem_cons_self
    obtain ⟨bound, rfl⟩ : ∃ n, bound = n + 2 := ⟨bound - 2, by simp at bounded; omega⟩
    have done : (separatedStep close item).Peeks stop none :=
      closing.closes.bind_peeks (peeks_pure _ _)
    have all := (reads.takes_last closing).repeatedly_cons (t := [])
      ((done.repeatedly bound).takes rfl)
    rw [List.append_nil] at all
    rw [List.map_singleton, List.intercalate_singleton]
    refine all.mono ?_
    rintro _ ⟨a, _, rfl, read, rfl⟩
    exact .cons read .nil
  | cons y ys ih =>
    have reads := each x List.mem_cons_self
    obtain ⟨bound, rfl⟩ : ∃ n, bound = n + 1 := ⟨bound - 1, by omega⟩
    have later := ih (x := y) (Nat.lt_of_succ_lt_succ bounded)
      fun z member => each z (List.mem_cons_of_mem x member)
    have all := (reads.takes_step _).repeatedly_cons later
    rw [List.map_cons, List.map_cons, List.intercalate_cons_cons]
    refine all.mono ?_
    rintro _ ⟨a, more, rfl, read, told⟩
    exact .cons read told

theorem takes_separated (close : String) {x : γ} {xs : List γ} {blank rest : List Char}
    (bounded : xs.length + 1 < g.bound) (blanks : IsBlank blank)
    (solid : IsSolid (close.toList ++ rest))
    (closing : ClosesList close (blank ++ close.toList ++ rest))
    (each : ∀ y ∈ x :: xs,
      ReadsItem item close (blank ++ close.toList ++ rest) (text y) (Read y)) :
    (g.separated close item).Takes
      ([','].intercalate ((x :: xs).map text) ++ (blank ++ close.toList)) rest
      (List.Forall₂ Read (x :: xs)) := by
  rw [separated_eq]
  refine (takes_items bounded closing each).bind fun items read => ?_
  exact (takes_symbol close blanks solid).gives fun _ _ => read

end Separated

end Grammar

end SchemaMigration.Source
