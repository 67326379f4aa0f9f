import SchemaMigration.Proofs.PathSteps

set_option autoImplicit false

namespace SchemaMigration

namespace Component

theorem proper_name {text : String} (noSlash : '/' ∉ text.toList) (long : 2 < text.toList.length) :
    Proper (.name text) := by
  refine ⟨noSlash, ?_⟩
  have none : ¬(text.toList == [] || text.toList == ['.']) = true := by
    rw [Bool.or_eq_true, beq_iff_eq, beq_iff_eq]
    rintro (empty | dot)
    · simp [empty] at long
    · simp [dot] at long
  have dots : ¬(text.toList == ['.', '.']) = true := by
    rw [beq_iff_eq]
    intro same
    simp [same] at long
  rw [Component.text, ofPiece?, if_neg none, if_neg dots, String.ofList_toList]

theorem Proper.not_mem_dots {text : String} (proper : Proper (.name text)) :
    text.toList ∉ [[], ['.'], ['.', '.']] := by
  intro member
  have read := proper.2
  rw [Component.text] at read
  simp only [List.mem_cons, List.not_mem_nil, or_false] at member
  rcases member with same | same | same <;> simp [same, ofPiece?] at read

theorem ofPiece?_cases (piece : List Char) :
    (piece = [] ∨ piece = ['.']) ∧ ofPiece? piece = none ∨
      piece = ['.', '.'] ∧ ofPiece? piece = some .parent ∨
      piece ∉ [[], ['.'], ['.', '.']] ∧ ofPiece? piece = some (.name (String.ofList piece)) := by
  by_cases stay : piece = [] ∨ piece = ['.']
  next => exact .inl ⟨stay, by simp [ofPiece?, stay]⟩
  next =>
    by_cases up : piece = ['.', '.']
    next => exact .inr (.inl ⟨up, by simp [ofPiece?, up]⟩)
    next => exact .inr (.inr ⟨by simp_all, by simp_all [ofPiece?]⟩)

end Component

namespace Path

theorem readSteps_pieces {pieces : List (List Char)} (noSlash : ∀ piece ∈ pieces, '/' ∉ piece) :
    readSteps ((['/'] : List Char).intercalate pieces) = pieces.filterMap Component.ofPiece? := by
  by_cases empty : pieces = []
  · simp [empty]
  · rw [readSteps, List.splitOn_intercalate '/' noSlash empty]

theorem filterMap_dropNoSteps (backwards : List (List Char)) :
    (dropNoSteps backwards).filterMap Component.ofPiece? =
      backwards.filterMap Component.ofPiece? := by
  fun_induction dropNoSteps backwards with
  | case1 => rfl
  | case2 => rfl
  | case3 piece before dropped ih =>
    have unread : Component.ofPiece? piece = none := by
      simp only [isStep, Bool.or_eq_true, not_or, Bool.not_eq_true, Option.isSome_eq_false_iff,
        Option.isNone_iff_eq_none] at dropped
      exact dropped.1
    rw [ih, List.filterMap_cons_none unread]

theorem dropSteps_suffix (n : Nat) (pieces : List (List Char)) : dropSteps n pieces <:+ pieces := by
  fun_induction dropSteps n pieces with
  | case1 => exact List.suffix_rfl
  | case2 => exact List.suffix_rfl
  | case3 piece rest n read ih => exact ih.trans (List.suffix_cons piece rest)
  | case4 piece rest n unread ih => exact ih.trans (List.suffix_cons piece rest)

theorem filterMap_dropSteps (n : Nat) (pieces : List (List Char)) :
    (dropSteps n pieces).filterMap Component.ofPiece? =
      (pieces.filterMap Component.ofPiece?).drop n := by
  fun_induction dropSteps n pieces with
  | case1 => simp
  | case2 => simp
  | case3 piece rest n read ih =>
    obtain ⟨step, read⟩ := Option.isSome_iff_exists.mp read
    rw [List.filterMap_cons_some read, List.drop_succ_cons, ih]
  | case4 piece rest n unread ih =>
    rw [Option.isSome_eq_false_iff, Option.isNone_iff_eq_none] at unread
    rw [ih, List.filterMap_cons_none unread]

theorem steps_ofPiecesReversed {backwards : List (List Char)}
    (noSlash : ∀ piece ∈ backwards, '/' ∉ piece) (absolute : Bool) :
    (ofPiecesReversed absolute backwards).steps =
      backwards.reverse.filterMap Component.ofPiece? := by
  simp only [ofPiecesReversed]
  split
  next bare =>
    have unread : ∀ piece ∈ backwards.reverse, Component.ofPiece? piece = none := by
      intro piece member
      rw [Bool.and_eq_true, List.all_eq_true] at bare
      have empty := bare.2 piece (List.mem_reverse.mp member)
      rw [List.isEmpty_iff.mp empty]
      rfl
    rw [List.filterMap_eq_nil_iff.mpr unread]
    exact readSteps_trailing_slash []
  next =>
    rw [steps, String.toList_ofList, readSteps_pieces]
    simpa using noSlash

def lead (p : Path) : List Component :=
  if p.isAbsolute then [.root] else if p.pieces.head? == some ['.'] then [.current] else []

theorem components_eq (p : Path) : p.components = p.lead ++ p.steps := by
  have read : p.steps = p.pieces.filterMap Component.ofPiece? := rfl
  by_cases absolute : p.isAbsolute = true <;>
    by_cases dot : (p.pieces.head? == some ['.']) = true <;>
    simp [components, lead, read, absolute, dot]

theorem mem_steps_of_name {p : Path} {text : String} (member : .name text ∈ p.components) :
    .name text ∈ p.steps := by
  rw [components_eq, List.mem_append] at member
  rcases member with leads | below
  next =>
    rw [lead] at leads
    split at leads
    next => simp at leads
    next => split at leads <;> simp at leads
  next => exact below

theorem fileName?_eq_some_iff {p : Path} {text : String} :
    p.fileName? = some text ↔ p.steps.getLast? = some (.name text) := by
  have last : p.fileName? = some text ↔ p.components.getLast? = some (.name text) := by
    rw [fileName?]
    split <;> simp_all
  rw [last, components_eq]
  by_cases bare : p.steps = []
  · -- What comes before the steps is no name.
    rw [bare, List.append_nil, lead]
    split
    · simp
    · split <;> simp
  · rw [List.getLast?_append_of_ne_nil _ bare]

theorem fileName?_congr {p q : Path} (same : (p == q) = true) : p.fileName? = q.fileName? := by
  rw [fileName?, fileName?, beq_iff_components.mp same]

theorem noSlash_pieces {p : Path} : ∀ piece ∈ p.pieces, '/' ∉ piece :=
  fun _ member => not_mem_of_mem_splitOn member

theorem filterMap_reverse_dropNoSteps (backwards : List (List Char)) :
    (dropNoSteps backwards).reverse.filterMap Component.ofPiece? =
      backwards.reverse.filterMap Component.ofPiece? := by
  rw [List.filterMap_reverse, filterMap_dropNoSteps, List.filterMap_reverse]

theorem steps_below? {p base below : Path} (found : p.below? base = some below) :
    ∃ n, below.steps = p.steps.drop n := by
  rw [below?] at found
  split at found
  next =>
    split at found
    next =>
      obtain rfl := Option.some.inj found
      rw [steps_ofPiecesReversed, filterMap_reverse_dropNoSteps, List.reverse_reverse]
      · exact ⟨0, rfl⟩
      · intro piece member
        have suffix := (dropNoSteps_suffix p.pieces.reverse).subset member
        exact noSlash_pieces piece (List.mem_reverse.mp suffix)
    next =>
      obtain rfl := Option.some.inj found
      rw [steps, String.toList_ofList, readSteps_pieces, filterMap_reverse_dropNoSteps,
        List.reverse_reverse, filterMap_dropSteps]
      · exact ⟨_, rfl⟩
      · intro piece member
        have inside := (dropNoSteps_suffix _).subset (List.mem_reverse.mp member)
        exact noSlash_pieces piece ((dropSteps_suffix _ _).subset (List.mem_reverse.mp inside))
  · cases found

theorem filterMap_reverse_pieces (p : Path) :
    (dropNoSteps p.pieces.reverse).filterMap Component.ofPiece? = p.steps.reverse := by
  rw [filterMap_dropNoSteps, List.filterMap_reverse]
  rfl

theorem steps_ne_nil {p : Path} {name : String} (named : p.fileName? = some name) :
    p.steps ≠ [] := by
  intro bare
  rw [fileName?_eq_some_iff, bare] at named
  cases named

theorem parent?_isSome {p : Path} (filled : p.steps ≠ []) : p.parent?.isSome = true := by
  have read := filterMap_reverse_pieces p
  rw [parent?]
  split
  next none =>
    rw [none, List.filterMap_nil, eq_comm, List.reverse_eq_nil_iff] at read
    exact absurd read filled
  next => rfl

theorem isStep_of_dropNoSteps {backwards before : List (List Char)} {last : List Char}
    (dropped : dropNoSteps backwards = last :: before) : isStep before.isEmpty last = true := by
  fun_induction dropNoSteps backwards with
  | case1 => cases dropped
  | case2 piece rest step =>
    obtain ⟨rfl, rfl⟩ := List.cons.inj dropped
    exact step
  | case3 piece rest skipped ih => exact ih dropped

theorem steps_parent? {p directory : Path} (absolute : p.isAbsolute = true)
    (above : p.parent? = some directory) : directory.steps = p.steps.dropLast := by
  have read := filterMap_reverse_pieces p
  have whole := dropNoSteps_suffix p.pieces.reverse
  rw [parent?] at above
  split at above
  next => cases above
  next last before dropped =>
    obtain rfl := Option.some.inj above
    rw [dropped] at read whole
    obtain ⟨step, taken⟩ : ∃ step, Component.ofPiece? last = some step := by
      rcases Bool.or_eq_true_iff.mp (isStep_of_dropNoSteps dropped) with some | dot
      next => exact Option.isSome_iff_exists.mp some
      next =>
        -- A leading dot would make the path relative.
        simp only [Bool.and_eq_true, List.isEmpty_iff, beq_iff_eq] at dot
        obtain ⟨pieces, backwards⟩ := reverse_pieces_of_absolute absolute
        rw [dot.1, dot.2, backwards, List.suffix_concat_iff] at whole
        rcases whole with none | ⟨kept, same, -⟩
        next => cases none
        next => simp [List.singleton_eq_append_iff] at same
    rw [List.filterMap_cons_some taken] at read
    have noSlash : ∀ piece ∈ before, '/' ∉ piece := by
      intro piece member
      exact noSlash_pieces piece
        (List.mem_reverse.mp (whole.subset (List.mem_cons_of_mem last member)))
    have kept (backwards : List (List Char)) (unread : backwards.filterMap Component.ofPiece? =
        before.filterMap Component.ofPiece?) : backwards.reverse.filterMap Component.ofPiece? =
        p.steps.dropLast := by
      rw [List.filterMap_reverse, unread, ← List.reverse_reverse p.steps, ← read]
      simp
    dsimp only
    split
    next bare =>
      rw [steps_ofPiecesReversed (by simp)]
      apply kept
      rw [← filterMap_dropNoSteps before, List.isEmpty_iff.mp (Bool.and_eq_true_iff.mp bare).2]
      rfl
    next =>
      rw [steps_ofPiecesReversed fun piece member =>
        noSlash piece ((dropNoSteps_suffix before).subset member)]
      exact kept _ (filterMap_dropNoSteps before)

theorem exists_parent? {p : Path} (absolute : p.isAbsolute = true)
    (below : (p == ⟨"/"⟩) = false) :
    ∃ directory, p.parent? = some directory ∧ directory.isAbsolute = true ∧
      directory.components = p.components.dropLast := by
  have filled : p.steps ≠ [] := by
    intro bare
    have root : components ⟨"/"⟩ = [.root] := by decide
    have same : (p == ⟨"/"⟩) = true := by
      rw [beq_iff_components, components_of_absolute absolute, bare, root]
    simp [same] at below
  obtain ⟨directory, above⟩ := Option.isSome_iff_exists.mp (parent?_isSome filled)
  have rooted := isAbsolute_parent? absolute above
  refine ⟨directory, above, rooted, ?_⟩
  rw [components_of_absolute absolute, components_of_absolute rooted, steps_parent? absolute above,
    List.dropLast_cons_of_ne_nil filled]

theorem isAbsolute_withoutExtension {p : Path} (absolute : p.isAbsolute = true) :
    p.withoutExtension.isAbsolute = true := by
  have read := filterMap_reverse_pieces p
  obtain ⟨pieces, backwards⟩ := reverse_pieces_of_absolute absolute
  have suffix := dropNoSteps_suffix p.pieces.reverse
  rw [withoutExtension]
  split
  next last before name dropped named =>
    rw [dropped] at read suffix
    rw [backwards, List.suffix_concat_iff] at suffix
    rcases suffix with none | ⟨kept, same, _⟩
    · cases none
    · cases kept with
      | nil =>
        -- The empty piece alone is no step, but the path has a name.
        rw [same, eq_comm, List.reverse_eq_iff] at read
        exact absurd read (steps_ne_nil named)
      | cons piece kept =>
        obtain ⟨rfl, rfl⟩ := List.cons.inj same
        rw [absolute]
        exact isAbsolute_ofPiecesReversed (_ :: kept)
  next => exact absolute

theorem lead_join {p q : Path} (filled : p.text ≠ "") (relative : q.isAbsolute = false) :
    (p.join q).lead = p.lead := by
  rw [lead, isAbsolute_join relative, head?_pieces_join filled relative, lead]

theorem components_join_name (directory : Path) {file : String}
    (proper : Component.Proper (.name file)) :
    (directory.join ⟨file⟩).components = directory.components ++ [.name file] := by
  have relative := isAbsolute_text proper
  have read := steps_text proper
  have noSlash := proper.1
  rw [Component.text] at relative read noSlash
  by_cases empty : directory.text = ""
  · obtain ⟨text⟩ := directory
    obtain rfl : text = "" := empty
    have whole : pieces ⟨file⟩ = [file.toList] := List.splitOn_eq_singleton noSlash
    have plain : file.toList ≠ ['.'] := proper.text_ne ['.'] rfl
    have alone : join ⟨""⟩ ⟨file⟩ = ⟨file⟩ := by simp [join]
    have none : components ⟨""⟩ = [] := by decide
    rw [alone, components_eq, read, lead, relative, whole, none]
    simp [plain]
  · rw [components_eq, components_eq, steps_join relative, read, lead_join empty relative,
      List.append_assoc]

def lastPiece (text : List Char) : List Char :=
  (text.splitOn '/').getLast (List.splitOn_ne_nil '/' text)

theorem noSlash_lastPiece (text : List Char) : '/' ∉ lastPiece text :=
  not_mem_of_mem_splitOn (List.getLast_mem _)

theorem lastPiece_append_slash (before after : List Char) :
    lastPiece (before ++ '/' :: after) = lastPiece after := by
  simp [lastPiece, List.splitOn_append_cons_self]

theorem lastPiece_of_not_mem {text : List Char} (noSlash : '/' ∉ text) : lastPiece text = text := by
  simp [lastPiece, List.splitOn_eq_singleton noSlash]

theorem lastPiece_name {text : String} (proper : Component.Proper (.name text)) :
    lastPiece text.toList = text.toList :=
  lastPiece_of_not_mem proper.1

theorem lastPiece_append {ending : List Char} (noSlash : '/' ∉ ending) (text : List Char) :
    lastPiece (text ++ ending) = lastPiece text ++ ending := by
  by_cases slash : '/' ∈ text
  · -- Cut at the last slash, which is the first one backwards.
    obtain ⟨after, before, backwards, last⟩ :=
      List.eq_append_cons_of_mem (List.mem_reverse.mpr slash)
    have cut : text = before.reverse ++ '/' :: after.reverse := by
      rw [← List.reverse_reverse text, backwards]
      simp
    rw [cut, List.append_assoc, List.cons_append, lastPiece_append_slash, lastPiece_append_slash,
      lastPiece_of_not_mem (by simp [last, noSlash]), lastPiece_of_not_mem (by simpa using last)]
  · rw [lastPiece_of_not_mem slash, lastPiece_of_not_mem (by simp [slash, noSlash])]

theorem lastPiece_intercalate_concat (before : List (List Char)) (last : List Char) :
    lastPiece ((['/'] : List Char).intercalate (before ++ [last])) = lastPiece last := by
  induction before with
  | nil => simp
  | cons piece rest ih =>
    rw [List.cons_append, List.intercalate_cons_of_ne_nil (by simp), List.append_assoc,
      List.singleton_append, lastPiece_append_slash, ih]

theorem fileName?_below? {p base below : Path} (found : p.below? base = some below)
    (nameless : p.fileName? = none) : below.fileName? = none := by
  obtain ⟨n, read⟩ := steps_below? found
  rw [Option.eq_none_iff_forall_ne_some] at nameless ⊢
  intro name named
  rw [fileName?_eq_some_iff, read, List.getLast?_drop] at named
  split at named
  · cases named
  · exact nameless name (fileName?_eq_some_iff.mpr named)

theorem fileName?_join (directory : Path) {file name : String}
    (last : lastPiece file.toList = name.toList) (proper : Component.Proper (.name name)) :
    (directory.join ⟨file⟩).fileName? = some name := by
  have read : Component.ofPiece? (lastPiece file.toList) = some (.name name) := by
    rw [last]
    exact proper.2
  have own : (steps ⟨file⟩).getLast? = some (.name name) := by
    rw [steps, readSteps, ← List.dropLast_append_getLast (List.splitOn_ne_nil '/' _),
      List.filterMap_append, ← lastPiece, List.filterMap_cons_some read]
    simp
  rw [fileName?_eq_some_iff]
  by_cases absolute : isAbsolute ⟨file⟩ = true
  · rw [join, if_pos absolute, own]
  · rw [steps_join (by simpa using absolute), List.getLast?_append, own]
    rfl

end Path

end SchemaMigration
