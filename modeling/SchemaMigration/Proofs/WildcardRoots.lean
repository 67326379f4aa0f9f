import Mathlib.Data.List.Nodup
import SchemaMigration.Proofs.ConfiguredRoots
import SchemaMigration.Proofs.Rearrangement

set_option autoImplicit false

namespace SchemaMigration

namespace Disk

variable {d : Disk} {place : Place} {name : String} {entry : Entry}

def DistinctPlaces (d : Disk) : Prop :=
  (d.entries.map Prod.fst).Nodup

theorem exists_listed (d : Disk) (place : Place) :
    ∃ listed : Place × Entry → Option (String × Entry),
      (d.children place).Perm (d.entries.filterMap listed) ∧
      ∀ held child, listed held = some child ↔ held = (place ++ [child.1], child.2) := by
  refine ⟨_, List.mergeSort_perm _ _, ?_⟩
  rintro ⟨held, entry⟩ ⟨name, other⟩
  dsimp only
  cases held using List.reverseRecOn with
  | nil => simp
  | append_singleton above last =>
    simp only [List.getLast?_concat, List.dropLast_concat, beq_iff_eq,
      Option.ite_none_right_eq_some,
      Option.some.injEq, Prod.mk.injEq, List.append_singleton_inj]
    exact and_assoc.symm

theorem mem_children : (name, entry) ∈ d.children place ↔ (place ++ [name], entry) ∈ d.entries := by
  obtain ⟨listed, same, read⟩ := d.exists_listed place
  rw [same.mem_iff, List.mem_filterMap]
  constructor
  next =>
    rintro ⟨held, member, kept⟩
    rwa [(read _ _).mp kept] at member
  next =>
    intro member
    exact ⟨_, member, (read _ _).mpr rfl⟩

theorem nodup_children (distinct : d.DistinctPlaces) : (d.children place).Nodup := by
  obtain ⟨listed, same, read⟩ := d.exists_listed place
  rw [same.nodup_iff]
  apply List.Nodup.filterMap _ (List.Nodup.of_map _ distinct)
  intro held other child first second
  rw [(read held child).mp first, (read other child).mp second]

theorem entryAt?_concat_iff (distinct : d.DistinctPlaces) :
    d.entryAt? (place ++ [name]) = some entry ↔ (place ++ [name], entry) ∈ d.entries := by
  constructor
  next => exact mem_entries_of_entryAt? (by simp)
  next =>
    intro member
    obtain ⟨before, after, whole⟩ := List.append_of_mem member
    rw [entryAt?, if_neg (by simp), List.lookup_eq_some_iff]
    refine ⟨before, after, whole, ?_⟩
    intro held earlier
    rw [DistinctPlaces, whole, List.map_append, List.nodup_append] at distinct
    rw [bne_iff_ne]
    exact (distinct.2.2 _ (List.mem_map_of_mem earlier) _ List.mem_cons_self).symm

end Disk

namespace Template

variable {d : Disk} {template : Path} {above head tail below : List Char}

theorem splitLast_append (oneStep : '/' ∉ head) :
    splitLast (above ++ '/' :: head) = (above, head) := by
  have cut : (above ++ '/' :: head).reverse.span (· != '/') =
      (head.reverse, '/' :: above.reverse) :=
    span_ne_eq_iff.mpr ⟨by simp, by simpa using oneStep, by simp⟩
  rw [splitLast, cut]
  simp

theorem splitFirst_append (oneStep : '/' ∉ tail) (opens : ∀ first ∈ below.head?, first = '/') :
    splitFirst (tail ++ below) = (tail, below.tail) := by
  rw [splitFirst, span_ne_eq_iff.mpr ⟨rfl, oneStep, opens⟩]
  cases below <;> simp

theorem isCapture_iff {name : List Char} :
    isCapture head tail name = true ↔ ∃ capture ≠ [], name = head ++ capture ++ tail := by
  simp only [isCapture, Bool.and_eq_true, decide_eq_true_eq, List.isPrefixOf_iff_prefix,
    List.isSuffixOf_iff_suffix]
  constructor
  next =>
    rintro ⟨⟨longer, later, rfl⟩, earlier, same⟩
    rcases List.append_eq_append_iff.mp same with ⟨shared, written, rfl⟩ | ⟨capture, rfl, rfl⟩
    next =>
      rw [written] at longer
      simp at longer
    next =>
      refine ⟨capture, ?_, by simp⟩
      rintro rfl
      simp at longer
  next =>
    rintro ⟨capture, filled, rfl⟩
    refine ⟨⟨?_, by simp⟩, List.suffix_append _ _⟩
    obtain ⟨c, rest, rfl⟩ := List.exists_cons_of_ne_nil filled
    have := c.utf8Size_pos
    simp only [Text.byteLength_append, Text.byteLength_cons]
    omega

structure Cut (template : Path) (above head tail below : List Char) : Prop where
  text : template.text.toList = above ++ '/' :: head ++ '*' :: (tail ++ below)
  first : '*' ∉ above ++ '/' :: head
  head : '/' ∉ head
  tail : '/' ∉ tail
  below : ∀ first ∈ below.head?, first = '/'

theorem exists_cut (absolute : template.isAbsolute = true) (star : '*' ∈ template.text.toList) :
    ∃ above head tail below, Cut template above head tail below := by
  obtain ⟨before, after, text, first⟩ := List.eq_append_cons_of_mem star
  have slash : '/' ∈ before.reverse := by
    rw [Path.isAbsolute, beq_iff_eq, text] at absolute
    cases before with
    | nil => simp at absolute
    | cons c rest => simp_all
  obtain ⟨last, rest, backwards, oneStep⟩ := List.eq_append_cons_of_mem slash
  obtain rfl : before = rest.reverse ++ '/' :: last.reverse := by
    rw [← List.reverse_inj, backwards]
    simp
  have cut := List.span_eq_takeWhile_dropWhile (· != '/') after
  obtain ⟨whole, inside, opens⟩ := span_ne_eq_iff.mp cut
  exact ⟨_, _, _, _, by rwa [← whole], first, by simpa using oneStep, inside, opens⟩

def parentOf (above : List Char) : Path :=
  if above.isEmpty then ⟨"/"⟩ else ⟨String.ofList above⟩

theorem Cut.parts (cut : Cut template above head tail below) :
    Text.splitAtStar? template.text.toList = some (above ++ '/' :: head, tail ++ below) :=
  Text.splitAtStar?_eq_some_iff.mpr ⟨cut.text, cut.first⟩

theorem Cut.filled_eq (cut : Cut template above head tail below) (capture : String) :
    Pattern.expand template ⟨some capture, ""⟩ =
      ⟨String.ofList (above ++ '/' :: head ++ capture.toList ++ (tail ++ below))⟩ := by
  have parts : Text.splitAtStar? template.text.toList = _ := cut.parts
  simp [Pattern.expand, Pattern.substitute, parts, String.ofList_append, String.append_assoc]

theorem empty_mem_pieces {p : Path} {before after : List Char}
    (text : p.text.toList = before ++ '/' :: after) (gap : ∀ first ∈ after.head?, first = '/') :
    [] ∈ p.pieces.tail := by
  have opened : (after.splitOn '/').head? = some [] := by
    cases after with
    | nil => rfl
    | cons first rest => simp [gap first rfl, List.splitOn_cons_eq_if_modifyHead]
  obtain ⟨rest, later⟩ := List.head?_eq_some_iff.mp opened
  obtain ⟨piece, earlier, pieces⟩ := List.exists_cons_of_ne_nil (List.splitOn_ne_nil '/' before)
  rw [Path.pieces, text, List.splitOn_append_cons_self, pieces, later]
  simp

theorem Cut.above_closed (cut : Cut template above head tail below)
    (noGap : [] ∉ template.pieces.tail) : above.getLast? ≠ some '/' := by
  intro closed
  obtain ⟨further, rfl⟩ := List.getLast?_eq_some_iff.mp closed
  have text : template.text.toList =
      further ++ '/' :: ('/' :: head ++ '*' :: (tail ++ below)) := by
    simp [cut.text]
  exact noGap (empty_mem_pieces text (by simp))

theorem Cut.below_opened (cut : Cut template above head tail below)
    (noGap : [] ∉ template.pieces.tail) {slash : Char} {remainder : List Char}
    (further : below = slash :: remainder) :
    slash = '/' ∧ remainder ≠ [] ∧ remainder.head? ≠ some '/' := by
  have opens := cut.below slash (by simp [further])
  have text : template.text.toList =
      (above ++ '/' :: head ++ '*' :: tail) ++ '/' :: remainder := by
    simp [cut.text, further, opens]
  have filled : ¬∀ first ∈ remainder.head?, first = '/' := fun gap =>
    noGap (empty_mem_pieces text gap)
  refine ⟨opens, ?_, ?_⟩
  next =>
    rintro rfl
    exact filled (by simp)
  next =>
    intro doubled
    exact filled (by simp [doubled])

theorem isAbsolute_eq_false {text : List Char} (opens : text.head? ≠ some '/') :
    Path.isAbsolute ⟨String.ofList text⟩ = false := by
  simpa [Path.isAbsolute] using opens

theorem join_ofList {directory step : List Char} (filled : directory ≠ [])
    (closed : directory.getLast? ≠ some '/') (opens : step.head? ≠ some '/') :
    Path.join ⟨String.ofList directory⟩ ⟨String.ofList step⟩ =
      ⟨String.ofList (directory ++ '/' :: step)⟩ := by
  rw [Path.join, isAbsolute_eq_false opens, if_neg (by simp), if_neg (by simp [filled, closed]),
    Path.mk.injEq, ← String.toList_inj]
  simp [String.toList_append]

theorem join_parentOf (closed : above.getLast? ≠ some '/') {step : List Char}
    (opens : step.head? ≠ some '/') :
    (parentOf above).join ⟨String.ofList step⟩ = ⟨String.ofList (above ++ '/' :: step)⟩ := by
  rw [parentOf]
  split
  next empty =>
    obtain rfl := List.isEmpty_iff.mp empty
    rw [Path.join, isAbsolute_eq_false opens, Path.mk.injEq, ← String.toList_inj]
    simp [String.toList_append]
  next filled => exact join_ofList (by simpa using filled) closed opens

theorem Cut.candidate_eq (cut : Cut template above head tail below)
    (noGap : [] ∉ template.pieces.tail) {step : List Char} {capture : String}
    (filled : capture ≠ "") (oneStep : '/' ∉ capture.toList)
    (named : step = head ++ capture.toList ++ tail) :
    (if below.tail.isEmpty then (parentOf above).join ⟨String.ofList step⟩
      else ((parentOf above).join ⟨String.ofList step⟩).join ⟨String.ofList below.tail⟩) =
      Pattern.expand template ⟨some capture, ""⟩ := by
  have inside : '/' ∉ step := by simp [named, cut.head, cut.tail, oneStep]
  have opens : step.head? ≠ some '/' := fun first => inside (List.mem_of_head? first)
  obtain ⟨rest, last, written⟩ : ∃ rest last, step = rest ++ [last] :=
    (List.eq_nil_or_concat' step).resolve_left (by simp [named, filled])
  rw [join_parentOf (cut.above_closed noGap) opens, cut.filled_eq]
  cases further : below with
  | nil => simp [named]
  | cons slash remainder =>
    obtain ⟨rfl, more, relative⟩ := cut.below_opened noGap further
    have closed : (above ++ '/' :: step).getLast? ≠ some '/' := by
      have whole : above ++ '/' :: step = above ++ '/' :: rest ++ [last] := by simp [written]
      rw [whole, List.getLast?_concat, ne_eq, Option.some.injEq]
      rintro rfl
      exact inside (by simp [written])
    rw [List.tail_cons, if_neg (by simpa using more), join_ofList (by simp) closed relative, named]
    simp

-- What a star may stand for: the step that it makes is a directory and no link, and the template
-- leads to a directory.
structure Captures (d : Disk) (template : Path) (capture : String) : Prop where
  filled : capture ≠ ""
  oneStep : '/' ∉ capture.toList
  entered : ∃ above head tail below place, Cut template above head tail below ∧
    d.find (parentOf above) = .ok place ∧
    d.entryAt? (place ++ [String.ofList (head ++ capture.toList ++ tail)]) = some .directory
  leads : d.isDirectory (Pattern.expand template ⟨some capture, ""⟩) = true

theorem Cut.exists_root? (cut : Cut template above head tail below)
    (noGap : [] ∉ template.pieces.tail) {place : Place}
    (found : d.find (parentOf above) = .ok place) :
    ∃ root? : String × Entry → Option Path,
      expand d template = Path.sort ((d.children place).filterMap root?) ∧
      ∀ name entry p, '/' ∉ name.toList → (root? (name, entry) = some p ↔
        entry = .directory ∧ ∃ capture ≠ "", name.toList = head ++ capture.toList ++ tail ∧
          d.isDirectory (Pattern.expand template ⟨some capture, ""⟩) = true ∧
          d.canonicalOrNormal (Pattern.expand template ⟨some capture, ""⟩) = p) := by
  have parent : (if above.isEmpty then ⟨"/"⟩ else ⟨String.ofList above⟩) = parentOf above := rfl
  simp only [expand, cut.parts, splitLast_append cut.head, splitFirst_append cut.tail cut.below,
    parent, found]
  refine ⟨_, rfl, ?_⟩
  intro name entry p inside
  dsimp only
  cases entry with
  | file | link | sink => simp
  | directory =>
    have candidate {capture : String} (filled : capture ≠ "")
        (named : name.toList = head ++ capture.toList ++ tail) :=
      cut.candidate_eq noGap filled (fun slash => inside (by simp [named, slash])) named
    simp only [String.ofList_toList] at candidate
    rw [Option.ite_none_right_eq_some, Bool.and_eq_true, isCapture_iff, Option.some.injEq]
    constructor
    next =>
      rintro ⟨⟨⟨capture, filled, named⟩, leads⟩, made⟩
      rw [← String.toList_ofList (l := capture)] at named
      rw [candidate (by simpa using filled) named] at leads made
      exact ⟨rfl, _, by simpa using filled, named, leads, made⟩
    next =>
      rintro ⟨-, capture, filled, named, leads, made⟩
      rw [candidate filled named]
      exact ⟨⟨⟨_, by simpa using filled, named⟩, leads⟩, made⟩

theorem Cut.expand_of_error (cut : Cut template above head tail below) {fault : DiskError}
    (missing : d.find (parentOf above) = .error fault) : expand d template = [] := by
  have parent : (if above.isEmpty then ⟨"/"⟩ else ⟨String.ofList above⟩) = parentOf above := rfl
  simp only [expand, cut.parts, splitLast_append cut.head, parent, missing]

theorem Cut.unique (cut : Cut template above head tail below)
    {above' head' tail' below' : List Char}
    (other : Cut template above' head' tail' below') :
    above = above' ∧ head = head' ∧ tail = tail' := by
  have parts := cut.parts
  rw [other.parts, Option.some.injEq, Prod.mk.injEq] at parts
  have last : splitLast (above ++ '/' :: head) = (above, head) := splitLast_append cut.head
  have first := splitFirst_append cut.tail cut.below
  rw [← parts.1, splitLast_append other.head, Prod.mk.injEq] at last
  rw [← parts.2, splitFirst_append other.tail other.below, Prod.mk.injEq] at first
  exact ⟨last.1.symm, last.2.symm, first.1.symm⟩

theorem Cut.captures_iff (cut : Cut template above head tail below) {capture : String} :
    Captures d template capture ↔ capture ≠ "" ∧ '/' ∉ capture.toList ∧
      (∃ place, d.find (parentOf above) = .ok place ∧
        d.entryAt? (place ++ [String.ofList (head ++ capture.toList ++ tail)]) = some .directory) ∧
      d.isDirectory (Pattern.expand template ⟨some capture, ""⟩) = true := by
  constructor
  next =>
    rintro ⟨filled, oneStep, ⟨above', head', tail', below', place, other, parent, entered⟩, leads⟩
    obtain ⟨rfl, rfl, rfl⟩ := cut.unique other
    exact ⟨filled, oneStep, ⟨place, parent, entered⟩, leads⟩
  next =>
    rintro ⟨filled, oneStep, ⟨place, parent, entered⟩, leads⟩
    exact ⟨filled, oneStep, ⟨_, _, _, _, place, cut, parent, entered⟩, leads⟩

def captureOf (head tail : List Char) (name : String) : String :=
  String.ofList ((name.toList.drop head.length).take
    (name.toList.length - (head.length + tail.length)))

theorem captureOf_eq {name capture : String}
    (named : name.toList = head ++ capture.toList ++ tail) :
    captureOf head tail name = capture := by
  have length : (head ++ capture.toList ++ tail).length - (head.length + tail.length) =
      capture.toList.length := by
    simp only [List.length_append]
    omega
  rw [captureOf, named, length, List.append_assoc, List.drop_left, List.take_left,
    String.ofList_toList]

theorem Cut.exists_found (cut : Cut template above head tail below)
    (noGap : [] ∉ template.pieces.tail) (names : d.ProperNames) (distinct : d.DistinctPlaces)
    {place : Place} (parent : d.find (parentOf above) = .ok place) :
    ∃ found : List (String × Path), (found.map Prod.fst).Nodup ∧
      (∀ capture p, (capture, p) ∈ found ↔ Captures d template capture ∧
        d.canonicalize (Pattern.expand template ⟨some capture, ""⟩) = .ok p) ∧
      expand d template = Path.sort (found.map Prod.snd) := by
  obtain ⟨root?, run, read⟩ := cut.exists_root? noGap parent
  have inside {name : String} {entry : Entry} (listed : (name, entry) ∈ d.children place) :
      '/' ∉ name.toList :=
    (names.entries _ (Disk.mem_children.mp listed) name (by simp)).1
  refine ⟨(d.children place).filterMap fun child =>
    (root? child).map fun p => (captureOf head tail child.1, p), ?_, ?_, ?_⟩
  next =>
    -- A step and what stands in the place of its star tell each other.
    rw [List.Nodup, List.pairwise_map, List.pairwise_filterMap]
    apply (Disk.nodup_children distinct).imp_of_mem
    rintro ⟨name, entry⟩ ⟨other, entry'⟩ listed listed' apart _ made _ made' same
    obtain ⟨p, kept, rfl⟩ := Option.map_eq_some_iff.mp made
    obtain ⟨p', kept', rfl⟩ := Option.map_eq_some_iff.mp made'
    obtain ⟨rfl, capture, -, named, -⟩ := (read _ _ _ (inside listed)).mp kept
    obtain ⟨rfl, capture', -, named', -⟩ := (read _ _ _ (inside listed')).mp kept'
    simp only [captureOf_eq named, captureOf_eq named'] at same
    apply apart
    rw [Prod.mk.injEq, ← String.toList_inj, named, named', same]
    exact ⟨rfl, rfl⟩
  next =>
    intro capture p
    rw [List.mem_filterMap, cut.captures_iff]
    constructor
    next =>
      rintro ⟨⟨name, entry⟩, listed, made⟩
      obtain ⟨p, kept, same⟩ := Option.map_eq_some_iff.mp made
      cases same
      obtain ⟨rfl, capture, filled, named, leads, rfl⟩ := (read _ _ _ (inside listed)).mp kept
      obtain ⟨target, there⟩ := Disk.exists_find_of_isDirectory leads
      have oneStep : '/' ∉ capture.toList := fun slash => inside listed (by simp [named, slash])
      rw [captureOf_eq named, ← named, String.ofList_toList]
      refine ⟨⟨filled, oneStep, ⟨place, parent, ?_⟩, leads⟩, Disk.canonicalize_of_find there⟩
      exact (Disk.entryAt?_concat_iff distinct).mpr (Disk.mem_children.mp listed)
    next =>
      rintro ⟨⟨filled, oneStep, ⟨other, found, entered⟩, leads⟩, canonical⟩
      obtain rfl : place = other := Except.ok.inj (parent.symm.trans found)
      have listed := Disk.mem_children.mpr ((Disk.entryAt?_concat_iff distinct).mp entered)
      have named : (String.ofList (head ++ capture.toList ++ tail)).toList =
          head ++ capture.toList ++ tail := String.toList_ofList
      obtain ⟨target, there⟩ := Disk.exists_find_of_isDirectory leads
      have made := Except.ok.inj ((Disk.canonicalize_of_find there).symm.trans canonical)
      refine ⟨_, listed, Option.map_eq_some_iff.mpr ⟨p, ?_, by rw [captureOf_eq named]⟩⟩
      exact (read _ _ _ (inside listed)).mpr ⟨rfl, capture, filled, named, leads, made⟩
  next =>
    rw [run, List.map_filterMap]
    congr 2
    funext child
    simp

end Template

theorem wildcard_roots_match_expansion {d : Disk} {template : Path} (names : d.ProperNames)
    (distinct : d.DistinctPlaces) (absolute : template.isAbsolute = true)
    (oneStar : template.text.toList.count '*' = 1) (noGap : [] ∉ template.pieces.tail) :
    ∃ found : List (String × Path), (found.map Prod.fst).Nodup ∧
      (∀ capture p, (capture, p) ∈ found ↔ Template.Captures d template capture ∧
        d.canonicalize (Pattern.expand template ⟨some capture, ""⟩) = .ok p) ∧
      (Template.expand d template).Perm (found.map Prod.snd) ∧
      (Template.expand d template).Pairwise fun p q => p.le q = true := by
  have star : '*' ∈ template.text.toList := List.count_pos_iff.mp (by omega)
  obtain ⟨above, head, tail, below, cut⟩ := Template.exists_cut absolute star
  cases parent : d.find (Template.parentOf above) with
  | error fault =>
    refine ⟨[], .nil, ?_, ?_, ?_⟩
    next =>
      intro capture p
      simp [cut.captures_iff, parent]
    next => simp [cut.expand_of_error parent]
    next => simp [cut.expand_of_error parent]
  | ok place =>
    obtain ⟨found, keyed, captured, sorted⟩ := cut.exists_found noGap names distinct parent
    rw [sorted]
    exact ⟨found, keyed, captured, List.mergeSort_perm _ _, Path.sort_pairwise _⟩

def packagesDisk : Disk where
  entries := [
    (["lib"], .directory),
    (["lib", "ui-core"], .directory),
    (["lib", "ui-core", "mixins"], .link ⟨"../../shared"⟩),
    (["lib", "ui-"], .directory),
    (["lib", "ui-", "mixins"], .directory),
    (["lib", "ui-old"], .link ⟨"ui-core"⟩),
    (["shared"], .directory)]
  workingDirectory := []

theorem wildcard_roots_match_expansion_packages :
    packagesDisk.ProperNames ∧ packagesDisk.DistinctPlaces ∧
      (⟨"/lib/ui-*/mixins"⟩ : Path).isAbsolute = true ∧ "/lib/ui-*/mixins".toList.count '*' = 1 ∧
      [] ∉ (⟨"/lib/ui-*/mixins"⟩ : Path).pieces.tail ∧
      ∃ found : List (String × Path), ("core", ⟨"/shared"⟩) ∈ found ∧ (found.map Prod.fst).Nodup ∧
        (∀ capture p, (capture, p) ∈ found ↔
          Template.Captures packagesDisk ⟨"/lib/ui-*/mixins"⟩ capture ∧
          packagesDisk.canonicalize (Pattern.expand ⟨"/lib/ui-*/mixins"⟩ ⟨some capture, ""⟩) =
            .ok p) ∧
        (Template.expand packagesDisk ⟨"/lib/ui-*/mixins"⟩).Perm (found.map Prod.snd) ∧
        (Template.expand packagesDisk ⟨"/lib/ui-*/mixins"⟩).Pairwise fun p q => p.le q = true := by
  have names : packagesDisk.ProperNames := by
    constructor <;> simp only [packagesDisk, Place.IsProper] <;> decide
  have distinct : packagesDisk.DistinctPlaces := by
    unfold Disk.DistinctPlaces packagesDisk
    decide
  have absolute : (⟨"/lib/ui-*/mixins"⟩ : Path).isAbsolute = true := by decide
  have oneStar : "/lib/ui-*/mixins".toList.count '*' = 1 := by decide
  have noGap : [] ∉ (⟨"/lib/ui-*/mixins"⟩ : Path).pieces.tail := by decide
  have cut : Template.Cut ⟨"/lib/ui-*/mixins"⟩ "/lib".toList "ui-".toList [] "/mixins".toList :=
    ⟨by decide, by decide, by decide, by decide, by simp⟩
  have leads : packagesDisk.find (Pattern.expand ⟨"/lib/ui-*/mixins"⟩ ⟨some "core", ""⟩) =
      .ok ["shared"] := by
    decide +kernel
  have canonical : packagesDisk.canonicalize
      (Pattern.expand ⟨"/lib/ui-*/mixins"⟩ ⟨some "core", ""⟩) = .ok ⟨"/shared"⟩ := by
    simp only [Disk.canonicalize, leads]
    rfl
  have captured : Template.Captures packagesDisk ⟨"/lib/ui-*/mixins"⟩ "core" :=
    ⟨by decide, by decide, ⟨_, _, _, _, ["lib"], cut, by with_unfolding_all rfl, by rfl⟩,
      by decide +kernel⟩
  obtain ⟨found, keyed, iff, sorted⟩ :=
    wildcard_roots_match_expansion names distinct absolute oneStar noGap
  exact ⟨names, distinct, absolute, oneStar, noGap, found,
    (iff _ _).mpr ⟨captured, canonical⟩, keyed, iff, sorted⟩

end SchemaMigration
