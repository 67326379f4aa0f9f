import SchemaMigration.Proofs.ClassifiedFiles
import SchemaMigration.Proofs.OutputPaths
import SchemaMigration.Proofs.SettledPaths
import SchemaMigration.Proofs.TraitNames

set_option autoImplicit false

namespace SchemaMigration

namespace Path

variable {p directory root : Path} {name : String}

theorem steps_congr {q : Path} (same : (p == q) = true) : p.steps = q.steps := by
  -- The root and a leading dot are no steps.
  have kept (p : Path) :
      p.components.filter (fun step => step != .root && step != .current) = p.steps := by
    have proper : ∀ step ∈ p.steps, (step != .root && step != .current) = true := by
      intro step member
      have own := steps_proper member
      cases step with
      | root | current => exact absurd own.2 (by decide)
      | parent | name => rfl
    have none : p.lead.filter (fun step => step != .root && step != .current) = [] := by
      rw [lead]
      split
      next => rfl
      next => split <;> rfl
    rw [components_eq, List.filter_append, none, List.nil_append, List.filter_eq_self.mpr proper]
  rw [← kept p, ← kept q, beq_iff_components.mp same]

theorem eq_ofComponents (absolute : p.isAbsolute = true) (normal : p.normalize = p) :
    p = ofComponents p.components := by
  obtain ⟨names, -, taken, written⟩ := components_normalize absolute
  rw [normal] at written
  calc p = p.normalize := normal.symm
    _ = ofComponents p.components := by rw [normalize, taken, written]

theorem eq_of_steps {q : Path} (absolute : p.isAbsolute = true) (normal : p.normalize = p)
    (absolute' : q.isAbsolute = true) (normal' : q.normalize = q) (same : p.steps = q.steps) :
    p = q := by
  rw [eq_ofComponents absolute normal, eq_ofComponents absolute' normal',
    components_of_absolute absolute, components_of_absolute absolute', same]

theorem steps_eq_concat (named : p.fileName? = some name) :
    p.steps = p.steps.dropLast ++ [.name name] := by
  have last := fileName?_eq_some_iff.mp named
  exact (List.dropLast_append_getLast? _ last).symm

theorem exists_text (absolute : p.isAbsolute = true) (normal : p.normalize = p)
    (named : p.fileName? = some name) : ∃ front, p.text.toList = front ++ '/' :: name.toList := by
  have relative := isAbsolute_text (proper_fileName? named)
  have split : p.components = (.root :: p.steps.dropLast) ++ [.name name] := by
    rw [components_of_absolute absolute, List.cons_append, ← steps_eq_concat named]
  rw [eq_ofComponents absolute normal, split, ofComponents, List.foldl_append, ← ofComponents]
  have proper : ∀ step ∈ p.steps.dropLast, step.Proper := fun step member =>
    steps_proper (List.mem_of_mem_dropLast member)
  have above := isAbsolute_of_components_root (components_ofComponents_root proper)
  generalize ofComponents (.root :: p.steps.dropLast) = front at above
  rw [List.foldl_cons, List.foldl_nil, join, if_neg (by simpa using relative)]
  split
  next slash =>
    have filled : front.text.isEmpty = false := by
      cases empty : front.text.isEmpty with
      | false => rfl
      | true => simp [isAbsolute, String.isEmpty_iff.mp empty] at above
    have last : front.text.toList.getLast? = some '/' := by simpa [filled] using slash
    refine ⟨front.text.toList.dropLast, ?_⟩
    rw [String.toList_append, ← List.dropLast_append_getLast? _ last]
    simp [Component.text]
  next => exact ⟨front.text.toList, by simp [Component.text]⟩

def IsPlainExtension (extension : String) : Prop :=
  ∃ text : String, extension = "." ++ text ∧ text ≠ "" ∧ '.' ∉ text.toList ∧ '/' ∉ text.toList

theorem IsPlainExtension.append_inj {base base' extension extension' : String}
    (plain : IsPlainExtension extension) (plain' : IsPlainExtension extension')
    (same : base ++ extension = base' ++ extension') : base = base' ∧ extension = extension' := by
  obtain ⟨text, rfl, -, noDot, -⟩ := plain
  obtain ⟨text', rfl, -, noDot', -⟩ := plain'
  have chars := congrArg String.toList same
  simp only [String.toList_append] at chars
  obtain ⟨bases, texts⟩ := append_dot_inj noDot noDot' chars
  exact ⟨String.toList_inj.mp bases, by rw [String.toList_inj.mp texts]⟩

-- Only one of the extensions can end a text, so it does not matter which is tried first.
theorem stripExtension_eq {extensions : List String} {extension : String} {front : List Char}
    (plain : ∀ e ∈ extensions, IsPlainExtension e) (listed : extension ∈ extensions)
    (written : p.text.toList = front ++ extension.toList) :
    p.stripExtension extensions = ⟨String.ofList front⟩ := by
  obtain ⟨cut, found⟩ : ∃ cut, extensions.findSome? (fun e => e.toList.isSuffixOf? p.text.toList) =
      some cut := by
    rw [← Option.isSome_iff_exists, List.findSome?_isSome_iff]
    refine ⟨extension, listed, ?_⟩
    rw [List.isSuffixOf?_eq_some_iff_append_eq.mpr written.symm]
    rfl
  obtain ⟨other, member, ends⟩ := List.exists_of_findSome?_eq_some found
  rw [List.isSuffixOf?_eq_some_iff_append_eq, written] at ends
  have same : String.ofList cut = String.ofList front := by
    refine ((plain other member).append_inj (plain extension listed) ?_).1
    exact String.toList_inj.mp (by simpa using ends)
  rw [stripExtension, found]
  exact congrArg Path.mk same

theorem readSteps_piece {piece : List Char} (noSlash : '/' ∉ piece) :
    readSteps piece = (Component.ofPiece? piece).toList := by
  rw [readSteps, List.splitOn_eq_singleton noSlash]
  cases read : Component.ofPiece? piece <;> simp [read]

theorem steps_stripExtension {extensions : List String} {stem extension : String}
    (plain : ∀ e ∈ extensions, IsPlainExtension e) (listed : extension ∈ extensions)
    (absolute : p.isAbsolute = true) (normal : p.normalize = p)
    (named : p.fileName? = some (stem ++ extension)) :
    (p.stripExtension extensions).steps =
      p.steps.dropLast ++ (Component.ofPiece? stem.toList).toList := by
  obtain ⟨front, written⟩ := exists_text absolute normal named
  have proper := proper_fileName? named
  have noSlash : '/' ∉ stem.toList := fun slash => proper.1 (by simp [Component.text, slash])
  have cut : p.text.toList = (front ++ '/' :: stem.toList) ++ extension.toList := by
    simp [written]
  have above : p.steps.dropLast = readSteps front := by
    have last := steps_text proper
    rw [Component.text, steps] at last
    rw [steps, written, readSteps_append_slash, last, List.dropLast_concat]
  rw [stripExtension_eq plain listed cut, steps, String.toList_ofList, readSteps_append_slash,
    above, readSteps_piece noSlash]

theorem head?_dropSteps {n : Nat} {pieces : List (List Char)} {first : List Char}
    (head : (dropSteps n pieces).head? = some first) :
    (Component.ofPiece? first).isSome = true := by
  fun_induction dropSteps n pieces with
  | case1 => cases head
  | case2 piece rest read =>
    obtain rfl := Option.some.inj head
    exact read
  | case3 _ _ _ _ ih | case4 _ _ _ _ ih => exact ih head

theorem isAbsolute_intercalate {pieces : List (List Char)}
    (noSlash : ∀ piece ∈ pieces, '/' ∉ piece) (first : ∀ piece ∈ pieces.head?, piece ≠ []) :
    isAbsolute ⟨String.ofList ((['/'] : List Char).intercalate pieces)⟩ = false := by
  cases pieces with
  | nil => rfl
  | cons piece rest =>
    obtain ⟨c, others, rfl⟩ := List.exists_cons_of_ne_nil (first piece rfl)
    have plain : c ≠ '/' := fun slash => noSlash _ List.mem_cons_self (slash ▸ List.mem_cons_self)
    cases rest <;> simp [isAbsolute, plain, List.intercalate_cons_cons]

theorem isAbsolute_wholePath (absolute : p.isAbsolute = true) :
    (ofPiecesReversed p.isAbsolute (dropNoSteps p.pieces.reverse)).isAbsolute = true := by
  obtain ⟨pieces, backwards⟩ := reverse_pieces_of_absolute absolute
  have suffix := dropNoSteps_suffix p.pieces.reverse
  rw [backwards, List.suffix_concat_iff] at suffix
  rw [absolute, backwards]
  rcases suffix with none | ⟨kept, same, -⟩
  next =>
    rw [none]
    rfl
  next =>
    rw [same]
    exact isAbsolute_ofPiecesReversed kept

theorem steps_join_below? {base below : Path} (absolute : p.isAbsolute = true)
    (found : p.below? base = some below) (outer : Path) :
    (outer.join below).steps =
      if base.depth = 0 then p.steps else outer.steps ++ p.steps.drop (base.depth - 1) := by
  rw [below?] at found
  split at found
  next =>
    split at found
    next none =>
      obtain rfl := Option.some.inj found
      have noSlash : ∀ piece ∈ dropNoSteps p.pieces.reverse, '/' ∉ piece := fun piece member =>
        noSlash_pieces piece (List.mem_reverse.mp ((dropNoSteps_suffix _).subset member))
      rw [join, if_pos (isAbsolute_wholePath absolute), steps_ofPiecesReversed noSlash,
        filterMap_reverse_dropNoSteps, List.reverse_reverse, depth, if_pos none]
      rfl
    next n count =>
      simp only [absolute, Bool.true_or, if_true] at found
      generalize remaining : dropSteps n p.pieces = pieces at found
      obtain rfl := Option.some.inj found
      have noSlash : ∀ piece ∈ pieces, '/' ∉ piece := fun piece member =>
        noSlash_pieces piece ((dropSteps_suffix n p.pieces).subset (remaining ▸ member))
      obtain ⟨dropped, whole⟩ : (dropNoSteps pieces.reverse).reverse <+: pieces := by
        rw [← List.reverse_suffix, List.reverse_reverse]
        exact dropNoSteps_suffix _
      have noSlash' : ∀ piece ∈ (dropNoSteps pieces.reverse).reverse, '/' ∉ piece :=
        fun piece member => noSlash piece (whole ▸ List.mem_append_left dropped member)
      have relative := isAbsolute_intercalate noSlash' (by
        rintro piece head rfl
        have first : pieces.head? = some [] := by
          rw [← whole, List.head?_append, Option.mem_def.mp head]
          rfl
        exact absurd (head?_dropSteps (remaining ▸ first)) (by decide))
      have read : (steps ⟨String.ofList ((['/'] : List Char).intercalate
          (dropNoSteps pieces.reverse).reverse)⟩) = p.steps.drop n := by
        rw [steps, String.toList_ofList, readSteps_pieces noSlash', filterMap_reverse_dropNoSteps,
          List.reverse_reverse, ← remaining, filterMap_dropSteps]
        rfl
      rw [steps_join relative, read, depth, count, if_neg (Nat.succ_ne_zero n), Nat.succ_sub_one]
  next => cases found

theorem exists_deepest? {directories : List Path} (filled : directories ≠ []) :
    ∃ d, deepest? directories = some d ∧ d ∈ directories ∧
      ∀ x ∈ directories, x.depth ≤ d.depth := by
  induction directories using List.reverseRecOn with
  | nil => exact absurd rfl filled
  | append_singleton before last ih =>
    rw [deepest?, List.foldl_append, List.foldl_cons, List.foldl_nil, ← deepest?]
    by_cases bare : before = []
    next =>
      subst bare
      exact ⟨last, rfl, by simp, by simp⟩
    next =>
      obtain ⟨d, found, member, greatest⟩ := ih bare
      rw [found]
      dsimp only
      by_cases deeper : d.depth ≤ last.depth
      next =>
        refine ⟨last, if_pos deeper, by simp, fun x listed => ?_⟩
        rcases List.mem_append.mp listed with earlier | own
        next => exact (greatest x earlier).trans deeper
        next => rw [List.mem_singleton.mp own]
      next =>
        refine ⟨d, if_neg deeper, List.mem_append_left _ member, fun x listed => ?_⟩
        rcases List.mem_append.mp listed with earlier | own
        next => exact greatest x earlier
        next =>
          rw [List.mem_singleton.mp own]
          omega

theorem exists_below? {base : Path} (holds : p.startsWith base = true) :
    ∃ below, p.below? base = some below := by
  rw [below?, if_pos holds]
  split <;> exact ⟨_, rfl⟩

theorem fileName?_of_steps {q : Path} (same : p.steps = q.steps) : p.fileName? = q.fileName? := by
  refine Option.ext fun name => ?_
  rw [fileName?_eq_some_iff, fileName?_eq_some_iff, same]

theorem IsDeepestRoot.exists_deepestRoot? {roots : List Path}
    (deepest : directory.IsDeepestRoot roots root) :
    ∃ chosen, directory.deepestRoot? roots = some chosen ∧
      directory.startsWith chosen = true ∧ chosen.depth = root.depth := by
  have held : root ∈ roots.filter directory.startsWith :=
    List.mem_filter.mpr ⟨deepest.listed, deepest.holds⟩
  obtain ⟨chosen, found, member, greatest⟩ := exists_deepest? (List.ne_nil_of_mem held)
  obtain ⟨listed, holds⟩ := List.mem_filter.mp member
  exact ⟨chosen, found, holds,
    Nat.le_antisymm (deepest.deepest chosen listed holds) (greatest root held)⟩

end Path

namespace Context

variable {ctx : Context} {root p q : Path} {stem extension : String}

-- A source file that keeps its place below a root: the root is the deepest one that holds its
-- directory.
structure Mirrors (ctx : Context) (root p : Path) (stem extension : String) : Prop where
  absolute : p.isAbsolute = true
  normal : p.normalize = p
  named : p.fileName? = some (stem ++ extension)
  filled : stem ≠ ""
  configured : extension ∈ ctx.extensions
  below : ∃ directory, p.parent? = some directory ∧
    directory.IsDeepestRoot (ctx.mixins.roots ++ ctx.models.roots) root

namespace Mirrors

theorem placeBelowRoot? (mirrors : ctx.Mirrors root p stem extension) (outer : Path) :
    ∃ below, ctx.placeBelowRoot? p = some below ∧ (outer.join below).steps =
      if root.depth = 0 then p.steps.dropLast
      else outer.steps ++ p.steps.dropLast.drop (root.depth - 1) := by
  obtain ⟨directory, above, deepest⟩ := mirrors.below
  obtain ⟨chosen, found, holds, depth⟩ := deepest.exists_deepestRoot?
  obtain ⟨below, cut⟩ := Path.exists_below? holds
  refine ⟨below, by simp [Context.placeBelowRoot?, above, found, cut], ?_⟩
  rw [← Path.steps_parent? mirrors.absolute above, ← depth]
  exact Path.steps_join_below? (Path.isAbsolute_parent? mirrors.absolute above) cut outer

theorem take_steps (mirrors : ctx.Mirrors root p stem extension) :
    p.steps.dropLast.take (root.depth - 1) = root.components.tail := by
  obtain ⟨directory, above, deepest⟩ := mirrors.below
  have holds := deepest.holds
  rw [Path.startsWith, List.isPrefixOf_iff_prefix, List.prefix_iff_eq_take,
    Path.components_of_absolute (Path.isAbsolute_parent? mirrors.absolute above),
    Path.steps_parent? mirrors.absolute above, ← Path.depth] at holds
  rw [holds]
  cases root.depth with
  | zero => rfl
  | succ n => rfl

theorem extension? (mirrors : ctx.Mirrors root p stem extension)
    (plain : Path.IsPlainExtension extension) :
    p.extension?.map ("." ++ ·) = some extension := by
  obtain ⟨text, rfl, -, noDot, -⟩ := plain
  have filled : stem.toList ≠ [] := by simpa using mirrors.filled
  have cut := Path.splitExtension_append_dot filled noDot
  have whole : (stem ++ ("." ++ text)).toList = stem.toList ++ '.' :: text.toList := by simp
  rw [Path.extension?, mirrors.named, Option.bind_eq_bind, Option.bind_some, whole, cut]
  simp

-- The stem that is taken for the name of a generated file: `..` is none, and for `.` the name of
-- the directory is taken.
theorem stem?_cases (mirrors : ctx.Mirrors root p stem extension)
    (plain : ∀ e ∈ ctx.extensions, Path.IsPlainExtension e) :
    stem = "." ∧ (∃ directory, p.parent? = some directory ∧ ctx.stem? p = directory.fileName?) ∨
      stem = ".." ∧ ctx.stem? p = none ∨
      stem ≠ "." ∧ stem ≠ ".." ∧ ctx.stem? p = some stem := by
  have steps := Path.steps_stripExtension plain mirrors.configured mirrors.absolute mirrors.normal
    mirrors.named
  rcases Component.ofPiece?_cases stem.toList with
    ⟨empty | dot, read⟩ | ⟨dots, read⟩ | ⟨proper, read⟩
  next => exact absurd (by simpa using empty) mirrors.filled
  next =>
    obtain ⟨directory, above, -⟩ := mirrors.below
    refine .inl ⟨String.toList_inj.mp dot, directory, above, Path.fileName?_of_steps ?_⟩
    rw [steps, read, Path.steps_parent? mirrors.absolute above]
    simp
  next =>
    refine .inr (.inl ⟨String.toList_inj.mp dots, ?_⟩)
    rw [Context.stem?, Option.eq_none_iff_forall_ne_some]
    intro name named
    rw [Path.fileName?_eq_some_iff, steps, read] at named
    simp at named
  next =>
    refine .inr (.inr ⟨?_, ?_, ?_⟩)
    next =>
      rintro rfl
      exact proper (by decide)
    next =>
      rintro rfl
      exact proper (by decide)
    next =>
      rw [Context.stem?, Path.fileName?_eq_some_iff, steps, read]
      simp

theorem stem?_of_dot {directory : Path} (mirrors : ctx.Mirrors root p stem extension)
    (plain : ∀ e ∈ ctx.extensions, Path.IsPlainExtension e) (above : p.parent? = some directory)
    (dot : stem = ".") : ctx.stem? p = directory.fileName? := by
  rcases mirrors.stem?_cases plain with ⟨-, _, again, taken⟩ | ⟨dots, -⟩ | ⟨solid, -⟩
  next =>
    obtain rfl := Option.some.inj (above.symm.trans again)
    exact taken
  next => exact absurd (dot.symm.trans dots) (by decide)
  next => exact absurd dot solid

theorem stem?_of_name {directory : Path} (mirrors : ctx.Mirrors root p stem extension)
    (plain : ∀ e ∈ ctx.extensions, Path.IsPlainExtension e)
    (named : directory.fileName? = some stem) : ctx.stem? p = some stem := by
  have proper := (Path.proper_fileName? named).not_mem_dots
  rcases mirrors.stem?_cases plain with ⟨rfl, -⟩ | ⟨rfl, -⟩ | ⟨-, -, taken⟩
  next => exact absurd (by decide) proper
  next => exact absurd (by decide) proper
  next => exact taken

variable {kind : ArtifactKind}

theorem policy_of_mem (member : kind ∈ [ArtifactKind.trait, .traitExtension]) :
    kind.policy.keepsPlace = true ∧ kind.policy.keepsExtension = true ∧
      kind.policy.isNamed = false ∧ '/' ∉ kind.policy.suffix.toList ∧
      2 < kind.policy.suffix.toList.length := by
  simp only [List.mem_cons, List.not_mem_nil, or_false] at member
  rcases member with rfl | rfl <;> decide

theorem file_place (mirrors : ctx.Mirrors root p stem extension)
    (plain : ∀ e ∈ ctx.extensions, Path.IsPlainExtension e)
    (member : kind ∈ [ArtifactKind.trait, .traitExtension]) (name : String) :
    ∃ below, ctx.placeBelowRoot? p = some below ∧
      (ctx.place kind name p).file = ((ctx.outputRoot kind.policy).join below).join
        ⟨(ctx.stem? p).getD "" ++ kind.policy.suffix ++ extension⟩ := by
  obtain ⟨keepsPlace, keepsExtension, derived, -, -⟩ := policy_of_mem member
  obtain ⟨below, found, -⟩ := mirrors.placeBelowRoot? (ctx.outputRoot kind.policy)
  refine ⟨below, found, ?_⟩
  have ending := mirrors.extension? (plain extension mirrors.configured)
  simp [place, derivedFileName, keepsPlace, keepsExtension, derived, found, ending]

theorem steps_place (mirrors : ctx.Mirrors root p stem extension)
    (plain : ∀ e ∈ ctx.extensions, Path.IsPlainExtension e)
    (member : kind ∈ [ArtifactKind.trait, .traitExtension]) (name : String) :
    (ctx.place kind name p).file.steps =
      (if root.depth = 0 then p.steps.dropLast
        else (ctx.outputRoot kind.policy).steps ++ p.steps.dropLast.drop (root.depth - 1)) ++
      [.name ((ctx.stem? p).getD "" ++ kind.policy.suffix ++ extension)] := by
  obtain ⟨-, -, -, noSlash, long⟩ := policy_of_mem member
  obtain ⟨below, found, file⟩ := mirrors.file_place plain member name
  obtain ⟨below', found', steps⟩ := mirrors.placeBelowRoot? (ctx.outputRoot kind.policy)
  obtain rfl := Option.some.inj (found.symm.trans found')
  have proper : Component.Proper
      (.name ((ctx.stem? p).getD "" ++ kind.policy.suffix ++ extension)) := by
    obtain ⟨text, rfl, -, -, plainText⟩ := plain extension mirrors.configured
    have base : '/' ∉ ((ctx.stem? p).getD "").toList := by
      cases taken : ctx.stem? p with
      | none => decide
      | some base => exact (Path.proper_fileName? taken).1
    apply Component.proper_name
    next => simp [base, noSlash, plainText]
    next =>
      simp only [String.toList_append, List.length_append]
      omega
  have last := Path.steps_text proper
  have relative := Path.isAbsolute_text proper
  rw [Component.text] at last relative
  rw [file, Path.steps_join relative, steps, last]

theorem dropLast_eq {stem' extension' : String} (first : ctx.Mirrors root p stem extension)
    (second : ctx.Mirrors root q stem' extension') {outer : List Component}
    (same : (if root.depth = 0 then p.steps.dropLast
        else outer ++ p.steps.dropLast.drop (root.depth - 1)) =
      if root.depth = 0 then q.steps.dropLast
        else outer ++ q.steps.dropLast.drop (root.depth - 1)) :
    p.steps.dropLast = q.steps.dropLast := by
  by_cases bare : root.depth = 0
  next => rwa [if_pos bare, if_pos bare] at same
  next =>
    rw [if_neg bare, if_neg bare] at same
    rw [← List.take_append_drop (root.depth - 1) p.steps.dropLast, first.take_steps,
      ← second.take_steps, List.append_cancel_left same, List.take_append_drop]

theorem stem_eq {stem' extension' : String} (first : ctx.Mirrors root p stem extension)
    (second : ctx.Mirrors root q stem' extension')
    (plain : ∀ e ∈ ctx.extensions, Path.IsPlainExtension e) (solid : stem ≠ ".")
    (solid' : stem' ≠ ".") (same : (ctx.stem? p).getD "" = (ctx.stem? q).getD "") :
    stem = stem' := by
  rcases first.stem?_cases plain with ⟨dot, -⟩ | ⟨dots, taken⟩ | ⟨-, -, taken⟩
  next => exact absurd dot solid
  all_goals
    rcases second.stem?_cases plain with ⟨dot, -⟩ | ⟨dots', taken'⟩ | ⟨-, -, taken'⟩
    next => exact absurd dot solid'
    all_goals rw [taken, taken'] at same
  next => rw [dots, dots']
  next => exact absurd same.symm second.filled
  next => exact absurd same first.filled
  next => exact same

end Mirrors

end Context

theorem mirrored_places_distinct {ctx : Context}
    (plain : ∀ e ∈ ctx.extensions, Path.IsPlainExtension e) {root p q : Path}
    {stem stem' extension extension' : String} (first : ctx.Mirrors root p stem extension)
    (second : ctx.Mirrors root q stem' extension') {kind : ArtifactKind}
    (mirrored : kind ∈ [ArtifactKind.trait, .traitExtension]) (name name' : String) :
    (p ≠ q → stem ≠ "." → stem' ≠ "." →
      ((ctx.place kind name p).file == (ctx.place kind name' q).file) = false) ∧
    ∀ directory, p.parent? = some directory → q.parent? = some directory → stem = "." →
      directory.fileName? = some stem' → extension = extension' →
      (ctx.place kind name p).file = (ctx.place kind name' q).file := by
  constructor
  next =>
    intro apart solid solid'
    refine Bool.eq_false_iff.mpr fun same => apart ?_
    have steps := Path.steps_congr same
    rw [first.steps_place plain mirrored, second.steps_place plain mirrored] at steps
    have directories := first.dropLast_eq second (List.append_inj_left' steps rfl)
    have names := Component.name.inj (List.cons.inj (List.append_inj_right' steps rfl)).1
    obtain ⟨stems, extensions⟩ := (plain extension first.configured).append_inj
      (plain extension' second.configured) names
    have bases : (ctx.stem? p).getD "" = (ctx.stem? q).getD "" := by
      apply String.toList_inj.mp
      simpa using congrArg String.toList stems
    have same := first.stem_eq second plain solid solid' bases
    refine Path.eq_of_steps first.absolute first.normal second.absolute second.normal ?_
    rw [Path.steps_eq_concat first.named, Path.steps_eq_concat second.named, directories, same,
      extensions]
  next =>
    intro directory above above' dot named same
    obtain ⟨below, found, file⟩ := first.file_place plain mirrored name
    obtain ⟨below', found', file'⟩ := second.file_place plain mirrored name'
    have place : ctx.placeBelowRoot? p = ctx.placeBelowRoot? q := by
      simp only [Context.placeBelowRoot?, above, above']
    obtain rfl : below = below' := Option.some.inj (found.symm.trans (place.trans found'))
    rw [file, file', first.stem?_of_dot plain above dot, second.stem?_of_name plain named, named,
      same]

def mirroringContext : Context where
  projectRoot := ⟨"/p"⟩
  extensions := [".js", ".ts"]
  models := ⟨none, none, [], [⟨"/p"⟩]⟩
  mixins := ⟨none, none, [], [⟨"/p/mixins"⟩]⟩
  output := {}
  importMappings := []
  intermediateModels := []
  exclude := []
  dryRun := true

theorem mirroringContext_plain : ∀ e ∈ mirroringContext.extensions, Path.IsPlainExtension e := by
  intro e listed
  rcases List.mem_cons.mp listed with rfl | later
  next => exact ⟨"js", by decide, by decide, by decide, by decide⟩
  next =>
    obtain rfl := List.mem_singleton.mp later
    exact ⟨"ts", by decide, by decide, by decide, by decide⟩

theorem mirroringContext_mirrors {text directory stem extension : String}
    (checked : Path.isAbsolute ⟨text⟩ = true ∧ (Path.normalize ⟨text⟩).text = text ∧
      Path.fileName? ⟨text⟩ = some (stem ++ extension) ∧ stem ≠ "" ∧ extension ∈ [".js", ".ts"] ∧
      (Path.parent? ⟨text⟩).map Path.text = some directory ∧
      Path.startsWith ⟨directory⟩ ⟨"/p/mixins"⟩ = true) :
    mirroringContext.Mirrors ⟨"/p/mixins"⟩ ⟨text⟩ stem extension ∧
      Path.parent? ⟨text⟩ = some ⟨directory⟩ := by
  obtain ⟨absolute, normal, named, filled, configured, above, below⟩ := checked
  obtain ⟨⟨_⟩, parent, rfl⟩ := Option.map_eq_some_iff.mp above
  refine ⟨⟨absolute, congrArg Path.mk normal, named, filled, configured, _, parent, ?_⟩, parent⟩
  refine ⟨List.mem_cons_self, below, fun other listed _ => ?_⟩
  rcases List.mem_cons.mp listed with rfl | later
  next => exact Nat.le_refl _
  next =>
    obtain rfl := List.mem_singleton.mp later
    decide +kernel

theorem mirrored_places_distinct_mixins :
    mirroringContext.Mirrors ⟨"/p/mixins"⟩ ⟨"/p/mixins/a/log.d.js"⟩ "log.d" ".js" ∧
      mirroringContext.Mirrors ⟨"/p/mixins"⟩ ⟨"/p/mixins/a/log.ts"⟩ "log" ".ts" ∧
      mirroringContext.Mirrors ⟨"/p/mixins"⟩ ⟨"/p/mixins/a/..ts"⟩ "." ".ts" ∧
      mirroringContext.Mirrors ⟨"/p/mixins"⟩ ⟨"/p/mixins/a/a.ts"⟩ "a" ".ts" ∧
      ((mirroringContext.place .trait "" ⟨"/p/mixins/a/log.d.js"⟩).file ==
        (mirroringContext.place .trait "" ⟨"/p/mixins/a/log.ts"⟩).file) = false ∧
      (mirroringContext.place .traitExtension "" ⟨"/p/mixins/a/..ts"⟩).file =
        (mirroringContext.place .traitExtension "" ⟨"/p/mixins/a/a.ts"⟩).file := by
  obtain ⟨dotted, -⟩ := @mirroringContext_mirrors "/p/mixins/a/log.d.js" "/p/mixins/a" "log.d" ".js"
    (by decide +kernel)
  obtain ⟨typed, -⟩ := @mirroringContext_mirrors "/p/mixins/a/log.ts" "/p/mixins/a" "log" ".ts"
    (by decide +kernel)
  obtain ⟨dot, above⟩ := @mirroringContext_mirrors "/p/mixins/a/..ts" "/p/mixins/a" "." ".ts"
    (by decide +kernel)
  obtain ⟨namesake, above'⟩ := @mirroringContext_mirrors "/p/mixins/a/a.ts" "/p/mixins/a" "a" ".ts"
    (by decide +kernel)
  have apart : (⟨"/p/mixins/a/log.d.js"⟩ : Path) ≠ ⟨"/p/mixins/a/log.ts"⟩ := by simp
  refine ⟨dotted, typed, dot, namesake, ?_, ?_⟩
  next =>
    exact (mirrored_places_distinct mirroringContext_plain dotted typed (by decide) "" "").1 apart
      (by decide) (by decide)
  next =>
    exact (mirrored_places_distinct mirroringContext_plain dot namesake (by decide) "" "").2 _ above
      above' rfl (by decide +kernel) rfl

theorem dot_shares_place :
    mirroringContext.Mirrors ⟨"/p/mixins"⟩ ⟨"/p/mixins/..js"⟩ "." ".js" ∧
      mirroringContext.Mirrors ⟨"/p/mixins"⟩ ⟨"/p/mixins/mixins.js"⟩ "mixins" ".js" ∧
      (mirroringContext.place .trait "" ⟨"/p/mixins/..js"⟩).file.text =
        (mirroringContext.place .trait "" ⟨"/p/mixins/mixins.js"⟩).file.text ∧
      (mirroringContext.place .traitExtension "" ⟨"/p/mixins/..js"⟩).file.text =
        (mirroringContext.place .traitExtension "" ⟨"/p/mixins/mixins.js"⟩).file.text := by
  obtain ⟨dot, -⟩ := @mirroringContext_mirrors "/p/mixins/..js" "/p/mixins" "." ".js"
    (by decide +kernel)
  obtain ⟨namesake, -⟩ := @mirroringContext_mirrors "/p/mixins/mixins.js" "/p/mixins" "mixins" ".js"
    (by decide +kernel)
  exact ⟨dot, namesake, by decide +kernel, by decide +kernel⟩

end SchemaMigration
