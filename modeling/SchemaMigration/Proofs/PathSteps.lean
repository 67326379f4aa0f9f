import Mathlib.Data.List.Basic
import SchemaMigration.Path.Basic

set_option autoImplicit false

namespace SchemaMigration

namespace Component

def Proper (step : Component) : Prop :=
  '/' ∉ step.text.toList ∧ ofPiece? step.text.toList = some step

instance (step : Component) : Decidable step.Proper :=
  inferInstanceAs (Decidable (_ ∧ _))

theorem ofPiece?_text {piece : List Char} {step : Component} (read : ofPiece? piece = some step) :
    step.text.toList = piece := by
  unfold ofPiece? at read
  split at read
  · cases read
  · split at read
    next dots =>
      cases read
      exact (beq_iff_eq.mp dots).symm
    next =>
      cases read
      exact String.toList_ofList

theorem ofPiece?_proper {piece : List Char} {step : Component} (noSlash : '/' ∉ piece)
    (read : ofPiece? piece = some step) : step.Proper := by
  rw [Proper, ofPiece?_text read]
  exact ⟨noSlash, read⟩

theorem parent_proper : Proper .parent := by
  decide

theorem Proper.text_ne {step : Component} (proper : step.Proper) (piece : List Char)
    (unread : ofPiece? piece = none) : step.text.toList ≠ piece := by
  intro same
  have read := proper.2
  rw [same, unread] at read
  cases read

end Component

namespace Path

def readSteps (text : List Char) : List Component :=
  (text.splitOn '/').filterMap Component.ofPiece?

def steps (p : Path) : List Component :=
  readSteps p.text.toList

theorem components_of_absolute {p : Path} (absolute : p.isAbsolute = true) :
    p.components = .root :: p.steps := by
  simp [components, steps, readSteps, pieces, absolute]

theorem not_mem_of_mem_splitOn {text piece : List Char} (member : piece ∈ text.splitOn '/') :
    '/' ∉ piece := by
  induction text generalizing piece with
  | nil => simp_all
  | cons c rest ih =>
    rw [List.splitOn_cons_eq_if_modifyHead] at member
    obtain ⟨first, others, split⟩ := List.exists_cons_of_ne_nil (List.splitOn_ne_nil '/' rest)
    rw [split] at member ih
    by_cases slash : c = '/'
    · simp only [slash, beq_self_eq_true, if_true, List.mem_cons] at member
      rcases member with rfl | member
      · simp
      · exact ih (List.mem_cons.mpr member)
    · simp only [beq_eq_false_iff_ne.mpr slash, Bool.false_eq_true, if_false, List.modifyHead_cons,
        List.mem_cons] at member
      rcases member with rfl | member
      · simpa [Ne.symm slash] using ih (by simp : first ∈ first :: others)
      · exact ih (List.mem_cons_of_mem _ member)

theorem readSteps_proper {text : List Char} {step : Component} (member : step ∈ readSteps text) :
    step.Proper := by
  obtain ⟨piece, inside, read⟩ := List.mem_filterMap.mp member
  exact Component.ofPiece?_proper (not_mem_of_mem_splitOn inside) read

theorem steps_proper {p : Path} {step : Component} (member : step ∈ p.steps) : step.Proper :=
  readSteps_proper member

theorem isAbsolute_of_components_root {p : Path} {below : List Component}
    (rooted : p.components = .root :: below) : p.isAbsolute = true := by
  by_contra relative
  rw [components, if_neg relative] at rooted
  split at rooted
  · cases rooted
  · have member : Component.root ∈ p.steps := by
      rw [steps, readSteps, ← pieces, rooted]
      exact List.mem_cons_self
    exact absurd (steps_proper member) (by decide)

@[simp] theorem readSteps_nil : readSteps [] = [] := by
  simp [readSteps, Component.ofPiece?]

theorem readSteps_append_slash (before after : List Char) :
    readSteps (before ++ '/' :: after) = readSteps before ++ readSteps after := by
  simp only [readSteps, List.splitOn_append_cons_self, List.filterMap_append]

theorem readSteps_trailing_slash (before : List Char) :
    readSteps (before ++ ['/']) = readSteps before := by
  simp [readSteps_append_slash]

theorem readSteps_intercalate (written : List Component)
    (proper : ∀ step ∈ written, step.Proper) :
    readSteps ((['/'] : List Char).intercalate (written.map (·.text.toList))) = written := by
  by_cases empty : written = []
  · simp [empty]
  · rw [readSteps, List.splitOn_intercalate '/' (by simpa using fun step member =>
      (proper step member).1) (by simpa using empty), List.filterMap_map]
    exact (List.filterMap_congr fun step member => (proper step member).2).trans
      List.filterMap_some

theorem isAbsolute_join {p q : Path} (relative : q.isAbsolute = false) :
    (p.join q).isAbsolute = p.isAbsolute := by
  simp only [isAbsolute] at relative
  by_cases empty : p.text = ""
  · simp [join, isAbsolute, relative, empty]
  · have filled : p.text.toList ≠ [] := by simpa using empty
    obtain ⟨first, others, split⟩ := List.exists_cons_of_ne_nil filled
    simp only [join, isAbsolute, relative, Bool.false_eq_true, if_false]
    split <;> simp [split]

theorem isAbsolute_join_of_absolute {p q : Path} (absolute : p.isAbsolute = true) :
    (p.join q).isAbsolute = true := by
  by_cases other : q.isAbsolute = true
  · rwa [join, if_pos other]
  · rwa [isAbsolute_join (by simpa using other)]

theorem steps_join {p q : Path} (relative : q.isAbsolute = false) :
    (p.join q).steps = p.steps ++ q.steps := by
  simp only [join, relative, Bool.false_eq_true, if_false]
  split
  next ended =>
    simp only [Bool.or_eq_true, String.isEmpty_iff, beq_iff_eq] at ended
    rcases ended with empty | slash
    · simp [steps, empty]
    · obtain ⟨before, written⟩ := List.getLast?_eq_some_iff.mp slash
      simp only [steps, String.toList_append, written, readSteps_trailing_slash]
      simp [readSteps_append_slash]
  next =>
    simp [steps, String.toList_append, readSteps_append_slash]

theorem isAbsolute_text {step : Component} (proper : step.Proper) :
    isAbsolute ⟨step.text⟩ = false := by
  have noSlash := proper.1
  cases written : step.text.toList with
  | nil => simp [isAbsolute, written]
  | cons c rest =>
    rw [written] at noSlash
    simpa [isAbsolute, written] using fun same : c = '/' => noSlash (by simp [same])

theorem steps_text {step : Component} (proper : step.Proper) :
    steps ⟨step.text⟩ = [step] := by
  simpa [steps] using readSteps_intercalate [step] (by simpa using proper)

theorem foldl_join {written : List Component} (proper : ∀ step ∈ written, step.Proper)
    (start : Path) :
    (written.foldl (fun p step => p.join ⟨step.text⟩) start).isAbsolute = start.isAbsolute ∧
      (written.foldl (fun p step => p.join ⟨step.text⟩) start).steps = start.steps ++ written := by
  induction written generalizing start with
  | nil => simp
  | cons step rest ih =>
    have relative := isAbsolute_text (proper step (by simp))
    obtain ⟨absolute, read⟩ :=
      ih (fun other member => proper other (List.mem_cons_of_mem _ member))
        (start.join ⟨step.text⟩)
    rw [isAbsolute_join relative] at absolute
    rw [steps_join relative, steps_text (proper step (by simp))] at read
    exact ⟨absolute, by simpa using read⟩

theorem head?_pieces_join {p q : Path} (filled : p.text ≠ "") (relative : q.isAbsolute = false) :
    (p.join q).pieces.head? = p.pieces.head? := by
  have headStays (before after : List Char) :
      ((before ++ '/' :: after).splitOn '/').head? = (before.splitOn '/').head? := by
    rw [List.splitOn_append_cons_self, List.head?_append_of_ne_nil _ (List.splitOn_ne_nil _ _)]
  simp only [join, relative, Bool.false_eq_true, if_false]
  split
  next ended =>
    simp only [Bool.or_eq_true, String.isEmpty_iff, filled, beq_iff_eq, false_or] at ended
    obtain ⟨before, written⟩ := List.getLast?_eq_some_iff.mp ended
    simp only [pieces, String.toList_append, written, List.append_assoc, List.singleton_append,
      headStays]
  next =>
    simp [pieces, String.toList_append, headStays]

theorem head?_pieces_foldl_join {written : List Component}
    (proper : ∀ step ∈ written, step.Proper) {start : Path} (filled : start.text ≠ "") :
    (written.foldl (fun p step => p.join ⟨step.text⟩) start).pieces.head? =
      start.pieces.head? := by
  induction written generalizing start with
  | nil => rfl
  | cons step rest ih =>
    have relative := isAbsolute_text (proper step (by simp))
    have grown : (start.join ⟨step.text⟩).text ≠ "" := by
      simp only [join, relative, Bool.false_eq_true, if_false]
      split <;> simp [filled]
    rw [List.foldl_cons, ih (fun other member => proper other (List.mem_cons_of_mem _ member))
      grown, head?_pieces_join filled relative]

theorem components_ofComponents_root {written : List Component}
    (proper : ∀ step ∈ written, step.Proper) :
    (ofComponents (.root :: written)).components = .root :: written := by
  have start : join ⟨""⟩ ⟨Component.text .root⟩ = ⟨"/"⟩ := by
    simp [join, isAbsolute, Component.text]
  obtain ⟨absolute, read⟩ := foldl_join proper ⟨"/"⟩
  rw [ofComponents, List.foldl_cons, start, components_of_absolute (by rw [absolute]; decide), read]
  simp [steps, show readSteps ['/'] = [] from readSteps_trailing_slash []]

theorem steps_ofComponents {written : List Component} (proper : ∀ step ∈ written, step.Proper) :
    (ofComponents written).isAbsolute = false ∧ (ofComponents written).steps = written := by
  obtain ⟨relative, read⟩ := foldl_join proper ⟨""⟩
  exact ⟨relative, by simpa [ofComponents, steps] using read⟩

theorem components_ofComponents {written : List Component}
    (proper : ∀ step ∈ written, step.Proper) :
    (ofComponents written).components = written := by
  obtain ⟨relative, below⟩ := steps_ofComponents proper
  -- A leading `.` would count as a step of its own, but proper steps never write one.
  have plain : (ofComponents written).pieces.head? ≠ some ['.'] := by
    cases written with
    | nil => simp [ofComponents, pieces]
    | cons first rest =>
      have own := proper first (by simp)
      rw [ofComponents, List.foldl_cons, join, isAbsolute_text own,
        head?_pieces_foldl_join (fun other member => proper other (List.mem_cons_of_mem _ member))
          (by simpa using own.text_ne [] rfl)]
      have whole : pieces ⟨first.text⟩ = [first.text.toList] :=
        List.splitOn_eq_singleton own.1
      simpa [whole] using own.text_ne ['.'] rfl
  rw [components, relative, if_neg Bool.false_ne_true, if_neg (by simpa using plain)]
  exact below

theorem dropNoSteps_suffix (backwards : List (List Char)) :
    dropNoSteps backwards <:+ backwards := by
  fun_induction dropNoSteps backwards with
  | case1 => exact List.suffix_rfl
  | case2 => exact List.suffix_rfl
  | case3 piece before _ ih => exact ih.trans (List.suffix_cons piece before)

-- Backwards, the pieces of an absolute path end with the empty one before its first slash.
theorem isAbsolute_ofPiecesReversed (pieces : List (List Char)) :
    (ofPiecesReversed true (pieces ++ [[]])).isAbsolute = true := by
  by_cases empty : (pieces ++ [[]]).all (·.isEmpty) = true
  · simp only [ofPiecesReversed, empty, Bool.and_self, if_true]
    rfl
  · obtain ⟨first, others, split⟩ : ∃ first others, pieces.reverse = first :: others := by
      cases reversed : pieces.reverse with
      | nil => simp_all
      | cons first others => exact ⟨first, others, rfl⟩
    simp [ofPiecesReversed, empty, isAbsolute, split]

theorem reverse_pieces_of_absolute {p : Path} (absolute : p.isAbsolute = true) :
    ∃ pieces, p.pieces.reverse = pieces ++ [[]] := by
  obtain ⟨rest, written⟩ : ∃ rest, p.text.toList = '/' :: rest := by
    simpa [isAbsolute, List.head?_eq_some_iff] using absolute
  exact ⟨(rest.splitOn '/').reverse,
    by simp [pieces, written, List.splitOn_cons_eq_if_modifyHead]⟩

theorem isAbsolute_parent? {p directory : Path} (absolute : p.isAbsolute = true)
    (above : p.parent? = some directory) : directory.isAbsolute = true := by
  obtain ⟨pieces, backwards⟩ := reverse_pieces_of_absolute absolute
  unfold parent? at above
  split at above
  · cases above
  · next last before dropped =>
    cases above
    -- What is kept of the pieces still ends with that empty one, unless nothing is kept.
    have suffix : dropNoSteps before <:+ pieces ++ [[]] := by
      rw [← backwards]
      refine (dropNoSteps_suffix before).trans ?_
      have whole := dropNoSteps_suffix p.pieces.reverse
      rw [dropped] at whole
      exact (List.suffix_cons last before).trans whole
    simp only [absolute, Bool.true_and]
    split
    next => exact isAbsolute_ofPiecesReversed []
    next filled =>
      rcases List.suffix_concat_iff.mp suffix with none | ⟨kept, same, _⟩
      · simp [none] at filled
      · rw [same]
        exact isAbsolute_ofPiecesReversed kept

end Path

end SchemaMigration
