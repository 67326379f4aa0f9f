import Mathlib.Data.List.Count
import Mathlib.Data.List.Infix
import Mathlib.Data.List.TakeWhile
import SchemaMigration.Proofs.NormalPaths
import SchemaMigration.Proofs.Relocation
import SchemaMigration.Proofs.SpecifierPatterns

set_option autoImplicit false

namespace SchemaMigration

namespace ImportMapping

section Occurrences

-- The segments stand right before `after`, and nowhere further to the front.
def FollowsFirst (segments whole after : List String) : Prop :=
  ∃ before, whole = before ++ segments ++ after ∧
    ∀ earlier later, whole = earlier ++ segments ++ later → before.length ≤ earlier.length

theorem afterSegments?_eq_some_iff {segments whole after : List String} :
    afterSegments? segments whole = some after ↔ FollowsFirst segments whole after := by
  induction whole with
  | nil =>
    rw [afterSegments?]
    constructor
    next =>
      intro found
      obtain ⟨empty, ⟨⟩⟩ := Option.ite_none_right_eq_some.mp found
      exact ⟨[], by simpa using empty, by simp⟩
    next =>
      rintro ⟨before, whole, -⟩
      simp_all
  | cons s rest ih =>
    rw [afterSegments?]
    cases found : segments.isPrefixOf? (s :: rest) with
    | some later =>
      rw [List.isPrefixOf?_eq_some_iff_append_eq] at found
      constructor
      next =>
        rintro ⟨⟩
        exact ⟨[], by simp [found], by simp⟩
      next =>
        rintro ⟨before, whole, first⟩
        obtain rfl : before = [] := by simpa using first [] later (by simp [found])
        rw [← found, List.nil_append] at whole
        rw [List.append_cancel_left whole]
    | none =>
      have apart (later : List String) : s :: rest ≠ [] ++ segments ++ later := by
        intro same
        rw [List.nil_append] at same
        rw [List.isPrefixOf?_eq_some_iff_append_eq.mpr same.symm] at found
        cases found
      dsimp only
      rw [ih]
      constructor
      next =>
        rintro ⟨before, whole, first⟩
        refine ⟨s :: before, by simp [whole], ?_⟩
        intro earlier later same
        cases earlier with
        | nil => exact absurd same (apart later)
        | cons other earlier =>
          simpa using first earlier later (List.cons.inj same).2
      next =>
        rintro ⟨before, whole, first⟩
        cases before with
        | nil => exact absurd whole (apart after)
        | cons other before =>
          refine ⟨before, (List.cons.inj whole).2, ?_⟩
          intro earlier later same
          simpa using first (s :: earlier) later (by simp [same])

end Occurrences

section Climbing

def isDown (segment : String) : Bool :=
  segment != "" && segment != "." && segment != ".."

-- With `room` steps to climb, no first part of the segments climbs higher than that.
def StaysInside (room : Nat) (segments : List String) : Prop :=
  ∀ front, front <+: segments → front.count ".." ≤ room + front.countP isDown

theorem staysInside_nil (room : Nat) : StaysInside room [] := by
  intro front start
  simp [List.prefix_nil.mp start]

variable {room : Nat} {segment : String} {rest : List String}

theorem staysInside_cons : StaysInside room (segment :: rest) ↔
    ∀ front, front <+: rest →
      (segment :: front).count ".." ≤ room + (segment :: front).countP isDown := by
  constructor
  next => exact fun stays front start => stays _ (List.prefix_cons_inj segment |>.mpr start)
  next =>
    intro stays front start
    rcases List.prefix_cons_iff.mp start with rfl | ⟨more, rfl, further⟩
    next => simp
    next => exact stays more further

theorem staysInside_up :
    StaysInside room (".." :: rest) ↔ ∃ less, room = less + 1 ∧ StaysInside less rest := by
  rw [staysInside_cons]
  simp only [List.count_cons_self, List.countP_cons_of_neg (p := isDown) (a := "..") (by decide)]
  constructor
  next =>
    intro stays
    have enough := stays [] List.nil_prefix
    obtain ⟨less, rfl⟩ : ∃ less, room = less + 1 := ⟨room - 1, by simp at enough; omega⟩
    refine ⟨less, rfl, ?_⟩
    intro front start
    have below := stays front start
    omega
  next =>
    rintro ⟨less, rfl, stays⟩ front start
    have below := stays front start
    omega

theorem staysInside_down (down : isDown segment = true) :
    StaysInside room (segment :: rest) ↔ StaysInside (room + 1) rest := by
  have other : segment ≠ ".." := by
    rintro rfl
    cases down
  rw [staysInside_cons]
  refine forall₂_congr fun front _ => ?_
  rw [List.count_cons_of_ne other, List.countP_cons_of_pos down]
  omega

theorem staysInside_stay (stay : (segment == "" || segment == ".") = true) :
    StaysInside room (segment :: rest) ↔ StaysInside room rest := by
  have other : segment ≠ ".." ∧ isDown segment = false := by
    rcases Bool.or_eq_true_iff.mp stay with empty | dot
    next =>
      rw [beq_iff_eq.mp empty]
      decide
    next =>
      rw [beq_iff_eq.mp dot]
      decide
  rw [staysInside_cons]
  refine forall₂_congr fun front _ => ?_
  rw [List.count_cons_of_ne other.1, List.countP_cons_of_neg (by simp [other.2])]

theorem isSome_foldlM_iff (segments place : List String) :
    (segments.foldlM takeSegment? place).isSome = true ↔ StaysInside place.length segments := by
  induction segments generalizing place with
  | nil => simp [staysInside_nil]
  | cons segment rest ih =>
    rw [List.foldlM_cons]
    by_cases stay : (segment == "" || segment == ".") = true
    next =>
      rw [staysInside_stay stay, ← ih]
      simp [takeSegment?, stay]
    next =>
      by_cases up : segment = ".."
      next =>
        subst up
        rw [staysInside_up]
        cases place with
        | nil => simp [takeSegment?]
        | cons last above => simp [takeSegment?, ih]
      next =>
        have down : isDown segment = true := by
          simp only [Bool.or_eq_true, beq_iff_eq, not_or] at stay
          simp [isDown, stay, up]
        have later := ih (segment :: place)
        rw [List.length_cons] at later
        rw [staysInside_down down, ← later]
        simp [takeSegment?, stay, up]

end Climbing

section Places

def specifierSegments (specifier : String) : List String :=
  (specifier.toList.splitOn '/').map String.ofList

theorem takeSegment?_name {piece : List Char} (place : List String)
    (named : piece ∉ [[], ['.'], ['.', '.']]) :
    takeSegment? place (String.ofList piece) = some (String.ofList piece :: place) := by
  have apart (other : List Char) (unlike : other ∈ [[], ['.'], ['.', '.']]) :
      (String.ofList piece == String.ofList other) = false := by
    rw [beq_eq_false_iff_ne]
    intro same
    rw [String.ofList_injective same] at named
    exact named unlike
  have empty : (String.ofList piece == "") = false := apart [] (by simp)
  have dot : (String.ofList piece == ".") = false := apart ['.'] (by simp)
  have dots : (String.ofList piece == "..") = false := apart ['.', '.'] (by simp)
  simp [takeSegment?, empty, dot, dots]

-- As long as nothing is climbed, following segments takes the steps that they are read as.
theorem map_name_of_foldlM {pieces : List (List Char)} {place reached : List String}
    (followed : (pieces.map String.ofList).foldlM takeSegment? place = some reached) :
    reached.map Component.name =
      (pieces.filterMap Component.ofPiece?).foldl Path.takeStep (place.map Component.name) := by
  induction pieces generalizing place with
  | nil =>
    cases followed
    rfl
  | cons piece rest ih =>
    rw [List.map_cons, List.foldlM_cons] at followed
    obtain ⟨next, taken, later⟩ := Option.bind_eq_some_iff.mp followed
    rw [ih later]
    rcases Component.ofPiece?_cases piece with ⟨stay, read⟩ | ⟨up, read⟩ | ⟨named, read⟩
    next =>
      have same : next = place := by
        rcases stay with rfl | rfl <;> exact (Option.some.inj taken).symm
      rw [List.filterMap_cons_none read, same]
    next =>
      subst up
      rw [List.filterMap_cons_some read, List.foldl_cons]
      cases place with
      | nil => cases taken
      | cons last above =>
        cases taken
        rfl
    next =>
      rw [takeSegment?_name place named] at taken
      rw [List.filterMap_cons_some read, List.foldl_cons, ← Option.some.inj taken]
      rfl

end Places

end ImportMapping

namespace Path

theorem mem_foldl_takeStep {taken done : List Component} {step : Component}
    (member : step ∈ taken.foldl takeStep done) : step ∈ done ∨ step ∈ taken := by
  induction taken generalizing done with
  | nil => exact .inl member
  | cons next rest ih =>
    rcases ih member with before | later
    next =>
      have own : step ∈ done ∨ step = next := by
        cases next with
        | current => exact .inl before
        | parent =>
          rcases done with _ | ⟨_ | _ | _ | _, below⟩ <;> grind [takeStep]
        | root | name => simpa [takeStep, or_comm] using before
      rcases own with old | rfl
      next => exact .inl old
      next => exact .inr List.mem_cons_self
    next => exact .inr (List.mem_cons_of_mem next later)

end Path

namespace ImportMapping

variable {subdirectories place : List String} {specifier : String}

theorem follow?_names (proper : ∀ name ∈ subdirectories, (Component.name name).Proper)
    (followed : follow? subdirectories specifier = some place) :
    place.map Component.name = Path.normalSteps
        (subdirectories.map .name ++ Path.steps ⟨specifier⟩) ∧
      ∀ name ∈ place, (Component.name name).Proper := by
  obtain ⟨reached, done, rfl⟩ := Option.map_eq_some_iff.mp followed
  have steps := map_name_of_foldlM done
  rw [← Path.readSteps] at steps
  constructor
  next =>
    have start : ∀ step ∈ subdirectories.map Component.name, step.IsName := by
      simp [Component.IsName]
    rw [Path.normalSteps, List.foldl_append, Path.foldl_takeStep_names start, List.append_nil,
      ← List.map_reverse, Path.steps, ← steps, List.map_reverse]
  next =>
    intro name member
    have taken : Component.name name ∈ reached.map Component.name :=
      List.mem_map_of_mem (List.mem_reverse.mp member)
    rw [steps] at taken
    rcases Path.mem_foldl_takeStep taken with old | new
    next => exact proper name (by simpa using old)
    next => exact Path.readSteps_proper new

theorem components_normalize_join (proper : ∀ name ∈ subdirectories, (Component.name name).Proper)
    (relative : Path.isAbsolute ⟨specifier⟩ = false)
    (followed : follow? subdirectories specifier = some place) :
    ((Path.ofComponents (subdirectories.map .name)).join ⟨specifier⟩).normalize.components =
      place.map Component.name := by
  obtain ⟨normal, named⟩ := follow?_names proper followed
  have names : ∀ step ∈ subdirectories.map Component.name, step.Proper := by simpa using proper
  obtain ⟨start, below⟩ := Path.steps_ofComponents names
  rw [Path.normalize, Path.normalSteps_components ((Path.isAbsolute_join relative).trans start),
    Path.steps_join relative, below, ← normal]
  exact Path.components_ofComponents (by simpa using named)

theorem names_proper {source : Path} {name : String} (member : name ∈ names source) :
    (Component.name name).Proper := by
  obtain ⟨step, listed, kept⟩ := List.mem_filterMap.mp member
  have same : step = .name name := by
    cases step with
    | name text => rw [Option.some.inj kept]
    | root | current | parent => cases kept
  subst same
  exact Path.steps_proper (Path.mem_steps_of_name listed)

theorem follow?_eq (place : List String) (specifier : String) : follow? place specifier =
    ((specifierSegments specifier).foldlM takeSegment? place.reverse).map List.reverse :=
  rfl

theorem specifierSegments_append {specifier rest : String} {front : List Char}
    (written : specifier.toList = front ++ '/' :: rest.toList) :
    specifierSegments specifier =
      (front.splitOn '/').map String.ofList ++ specifierSegments rest := by
  rw [specifierSegments, written, List.splitOn_append_cons_self, List.map_append]
  rfl

theorem follow?_up (rest module : String) :
    follow? (subdirectories ++ [module]) ("../" ++ rest) =
      follow? subdirectories ("./" ++ rest) := by
  have up : ("../" ++ rest).toList = ['.', '.'] ++ '/' :: rest.toList := by simp
  have level : ("./" ++ rest).toList = ['.'] ++ '/' :: rest.toList := by simp
  rw [follow?_eq, follow?_eq, specifierSegments_append up, specifierSegments_append level,
    List.reverse_append]
  rfl

structure Covers (m : ImportMapping) (source : Path) (subdirectories : List String)
    (file : String) : Prop where
  filled : segments m.directory ≠ []
  found : FollowsFirst (segments m.directory) (names source) (subdirectories ++ [file])

-- How many steps a specifier may climb: the subdirectories and, if it goes up at once, the module
-- of the file itself.
def room (subdirectories : List String) (specifier : String) : Nat :=
  subdirectories.length + if "../".toList <+: specifier.toList then 1 else 0

def Qualifies (m : ImportMapping) (specifier : String) (source : Path) : Prop :=
  ∃ subdirectories file, m.Covers source subdirectories file ∧
    StaysInside (room subdirectories specifier) (specifierSegments specifier)

variable {m : ImportMapping} {source : Path} {file result : String}

theorem startOf_concat (subdirectories : List String) (file specifier : String) :
    startOf (subdirectories ++ [file]) specifier =
      subdirectories ++ if "../".toList <+: specifier.toList then [stem file] else [] := by
  simp only [startOf, List.dropLast_concat, List.getLast?_concat, List.isPrefixOf_iff_prefix]
  rfl

theorem follow?_startOf_iff (file : String) :
    (∃ place, follow? (startOf (subdirectories ++ [file]) specifier) specifier = some place) ↔
      StaysInside (room subdirectories specifier) (specifierSegments specifier) := by
  have length : (startOf (subdirectories ++ [file]) specifier).reverse.length =
      room subdirectories specifier := by
    rw [List.length_reverse, startOf_concat, room, List.length_append]
    split <;> rfl
  rw [← length, ← isSome_foldlM_iff, ← Option.isSome_iff_exists, follow?_eq, Option.isSome_map]

theorem relocate?_eq_some_iff : m.relocate? specifier source = some result ↔
    ∃ subdirectories file place, m.Covers source subdirectories file ∧
      follow? (startOf (subdirectories ++ [file]) specifier) specifier = some place ∧
      "/".intercalate (String.ofList (Text.trimSlashes m.importBase.toList) :: place) = result := by
  constructor
  next =>
    intro found
    obtain ⟨_, filled, found⟩ := Option.bind_eq_some_iff.mp found
    obtain ⟨below, after, found⟩ := Option.bind_eq_some_iff.mp found
    obtain ⟨_, named, found⟩ := Option.bind_eq_some_iff.mp found
    obtain ⟨place, followed, same⟩ := Option.bind_eq_some_iff.mp found
    have covered : below ≠ [] := by simpa using (Option.guard_eq_some' _).mp named
    rw [← List.dropLast_concat_getLast covered] at after followed
    have directory : segments m.directory ≠ [] := by
      simpa using (Option.guard_eq_some' _).mp filled
    exact ⟨below.dropLast, below.getLast covered, place,
      ⟨directory, afterSegments?_eq_some_iff.mp after⟩, followed, Option.some.inj same⟩
  next =>
    rintro ⟨subdirectories, file, place, ⟨filled, found⟩, followed, rfl⟩
    have below := afterSegments?_eq_some_iff.mpr found
    simp [relocate?, filled, below, followed]

theorem qualifies_iff :
    m.Qualifies specifier source ↔ (m.relocate? specifier source).isSome = true := by
  rw [Option.isSome_iff_exists]
  constructor
  next =>
    rintro ⟨subdirectories, file, covers, stays⟩
    obtain ⟨place, followed⟩ := (follow?_startOf_iff file).mpr stays
    exact ⟨_, relocate?_eq_some_iff.mpr ⟨subdirectories, file, place, covers, followed, rfl⟩⟩
  next =>
    rintro ⟨result, found⟩
    obtain ⟨subdirectories, file, place, covers, followed, -⟩ := relocate?_eq_some_iff.mp found
    exact ⟨subdirectories, file, covers, (follow?_startOf_iff file).mp ⟨place, followed⟩⟩

-- What a specifier of a file becomes by way of a mapping: its base without the slashes at the end,
-- and below that the plain steps to the place that the specifier leads to. One that goes up first
-- starts from the file's own module, and so leads to where it would without that step.
structure IsMapped (m : ImportMapping) (specifier : String) (subdirectories place : List String)
    (result : String) : Prop where
  written : ∃ base, Pattern.IsTrimmed m.importBase.toList base ∧
    result = "/".intercalate (String.ofList base :: place)
  plain : ∀ segment ∈ place, segment ∉ ["", ".", ".."] ∧ '/' ∉ segment.toList
  level : ¬"../".toList <+: specifier.toList → place.map Component.name =
    ((Path.ofComponents (subdirectories.map .name)).join ⟨specifier⟩).normalize.components
  up : ∀ rest, specifier = "../" ++ rest → place.map Component.name =
    ((Path.ofComponents (subdirectories.map .name)).join ⟨"./" ++ rest⟩).normalize.components

theorem Covers.proper (covers : m.Covers source subdirectories file) :
    ∀ name ∈ subdirectories, (Component.name name).Proper := by
  obtain ⟨before, whole, -⟩ := covers.found
  intro name member
  have listed : name ∈ names source := by simp [whole, member]
  exact names_proper listed

theorem isMapped_of_follow? (covers : m.Covers source subdirectories file)
    (relative : isRelativeSpecifier specifier = true)
    (followed : follow? (startOf (subdirectories ++ [file]) specifier) specifier = some place) :
    m.IsMapped specifier subdirectories place
      ("/".intercalate (String.ofList (Text.trimSlashes m.importBase.toList) :: place)) := by
  have plain {level : String} (same : follow? subdirectories level = some place) :
      ∀ segment ∈ place, segment ∉ ["", ".", ".."] ∧ '/' ∉ segment.toList := by
    intro segment member
    have proper := (follow?_names covers.proper same).2 segment member
    refine ⟨?_, proper.1⟩
    have unlike := proper.not_mem_dots
    intro dots
    simp only [List.mem_cons, List.not_mem_nil, or_false] at dots
    rcases dots with rfl | rfl | rfl <;> simp at unlike
  rw [startOf_concat] at followed
  by_cases climbs : "../".toList <+: specifier.toList
  next =>
    rw [if_pos climbs] at followed
    obtain ⟨rest, written⟩ := climbs
    obtain rfl : specifier = "../" ++ String.ofList rest := by
      rw [← String.toList_inj, ← written]
      simp
    rw [follow?_up] at followed
    exact {
      written := ⟨_, Pattern.isTrimmed_trimSlashes _, rfl⟩
      plain := plain followed
      level := fun level => absurd ⟨rest, written⟩ level
      up := by
        intro other same
        rw [String.append_right_inj] at same
        rw [← same]
        have below : Path.isAbsolute ⟨"./" ++ String.ofList rest⟩ = false := by
          simp [Path.isAbsolute]
        exact (components_normalize_join covers.proper below followed).symm }
  next =>
    rw [if_neg climbs, List.append_nil] at followed
    exact {
      written := ⟨_, Pattern.isTrimmed_trimSlashes _, rfl⟩
      plain := plain followed
      level := fun _ => (components_normalize_join covers.proper
        (isAbsolute_of_isRelativeSpecifier relative) followed).symm
      up := by
        rintro rest rfl
        exact absurd (by simp) climbs }

end ImportMapping

section Mappings

variable {mappings : List ImportMapping} {source : Path} {target : Option Path}
  {specifier result : String}

theorem relocate_eq_mapping_iff (relative : isRelativeSpecifier specifier = true) :
    relocate mappings specifier (some source) target = (result, .mapping) ↔
      mappings.findSome? (·.relocate? specifier source) = some result := by
  rw [relocate, relative]
  cases found : mappings.findSome? (·.relocate? specifier source) with
  | some mapped => simp [found]
  | none =>
    cases geometricSpecifier? specifier (some source) target with
    | some moved => simp [found]
    | none => simp [found]

theorem relocate_mapping_iff (relative : isRelativeSpecifier specifier = true) :
    (relocate mappings specifier (some source) target).2 = .mapping ↔
      ∃ m ∈ mappings, m.Qualifies specifier source := by
  have found : (∃ result, mappings.findSome? (·.relocate? specifier source) = some result) ↔
      ∃ m ∈ mappings, m.Qualifies specifier source := by
    simp only [ImportMapping.qualifies_iff, ← Option.isSome_iff_exists,
      List.isSome_findSome?, List.any_eq_true]
  rw [← found]
  constructor
  next =>
    intro mapped
    exact ⟨_, (relocate_eq_mapping_iff relative).mp (Prod.ext rfl mapped)⟩
  next =>
    rintro ⟨result, first⟩
    rw [(relocate_eq_mapping_iff relative).mpr first]

end Mappings

open ImportMapping in
theorem relocate_by_mapping (mappings : List ImportMapping) (source : Path) (target : Option Path)
    {specifier : String} (relative : isRelativeSpecifier specifier = true) :
    ((relocate mappings specifier (some source) target).2 = .mapping ↔
        ∃ m ∈ mappings, m.Qualifies specifier source) ∧
      ∀ before m after, mappings = before ++ m :: after →
        (∀ other ∈ before, ¬other.Qualifies specifier source) →
        ∀ subdirectories file, m.Covers source subdirectories file →
          StaysInside (room subdirectories specifier) (specifierSegments specifier) →
          ∃ place result,
            relocate mappings specifier (some source) target = (result, .mapping) ∧
              m.IsMapped specifier subdirectories place result := by
  refine ⟨relocate_mapping_iff relative, ?_⟩
  rintro before m after rfl earlier subdirectories file covers stays
  obtain ⟨place, followed⟩ := (follow?_startOf_iff file).mpr stays
  refine ⟨place, _, (relocate_eq_mapping_iff relative).mpr ?_,
    isMapped_of_follow? covers relative followed⟩
  have passed : ∀ other ∈ before, other.relocate? specifier source = none := by
    intro other member
    rw [← Option.not_isSome_iff_eq_none, ← qualifies_iff]
    exact earlier other member
  have taken := relocate?_eq_some_iff.mpr ⟨subdirectories, file, place, covers, followed, rfl⟩
  rw [List.findSome?_append, List.findSome?_eq_none_iff.mpr passed, Option.none_or,
    List.findSome?_cons, taken]

theorem relocate_by_mapping_outer :
    ∃ place result,
      relocate [⟨"app/core/widgets", "my-widgets"⟩, ⟨"./app//core/", "my-lib/core//"⟩]
          "../../theme/./base" (some ⟨"/p/app/core/widgets/button.js"⟩) none =
        (result, .mapping) ∧
      ImportMapping.IsMapped ⟨"./app//core/", "my-lib/core//"⟩ "../../theme/./base" ["widgets"]
        place result := by
  refine (relocate_by_mapping _ ⟨"/p/app/core/widgets/button.js"⟩ none (by decide)).2
    [⟨"app/core/widgets", "my-widgets"⟩] _ [] rfl ?_ ["widgets"] "button.js" ?_ ?_
  next =>
    intro other member
    rw [List.mem_singleton.mp member, ImportMapping.qualifies_iff]
    decide
  next => exact ⟨by decide, ImportMapping.afterSegments?_eq_some_iff.mp (by decide)⟩
  next =>
    rw [← ImportMapping.follow?_startOf_iff "button.js"]
    exact ⟨["theme", "base"], by decide⟩

end SchemaMigration
