import SchemaMigration.Artifact.Extension
import SchemaMigration.Proofs.WrittenImports

set_option autoImplicit false

namespace SchemaMigration

open Source Source.Grammar Source.Parser

structure Import.IsRead (typed : Bool) (i : Import) : Prop where
  bindings : ∀ b ∈ i.bindings, b.IsRead typed
  marks : i.isTypeOnly = true → ∀ b ∈ i.bindings, b.isTypeOnly = true
  typed : i.isTypeOnly = true → typed = true
  whole : ∀ b ∈ i.bindings, b.imported = .wholeModule →
    (i.isTypeOnly = false → b.isTypeOnly = false) ∧
      (i.bindings = [b] ∨ ∃ d, d.imported = .defaultExport ∧ i.bindings = [d, b])

theorem ranked_whole {bindings : List ImportBinding} (ranked : Ranked bindings) {w : ImportBinding}
    (member : w ∈ bindings) (kind : w.imported = .wholeModule) :
    w.isTypeOnly = false ∧
      (bindings = [w] ∨ ∃ d, d.imported = .defaultExport ∧ bindings = [d, w]) := by
  have grouped {bs : List ImportBinding} (grouped : Grouped bs) (member : w ∈ bs) :
      w.isTypeOnly = false ∧ bs = [w] := by
    rcases grouped with ⟨name, rfl⟩ | parts
    · obtain rfl := List.mem_singleton.mp member
      exact ⟨rfl, rfl⟩
    · exact absurd kind (parts w member)
  rcases ranked with alone | ⟨name, more, rfl, later⟩
  · obtain ⟨value, same⟩ := grouped alone member
    exact ⟨value, .inl same⟩
  · rcases List.mem_cons.mp member with rfl | member
    · cases kind
    · obtain ⟨value, rfl⟩ := grouped later member
      exact ⟨value, .inr ⟨_, rfl, rfl⟩⟩

def underMark (marked : Bool) (b : ImportBinding) : ImportBinding :=
  { b with isTypeOnly := b.isTypeOnly || marked }

theorem Import.ofClause_bindings (span : Span) (clause : ImportClause) :
    (Import.ofClause span clause).bindings = clause.bindings.map (underMark clause.isTypeOnly) := by
  rw [Import.ofClause]
  refine List.map_congr_left fun b _ => ?_
  split
  next marked => simp [underMark, marked]
  next plain => simp [underMark, plain]

theorem Import.isRead_of_ofClause {typed : Bool} {clause : ImportClause}
    (read : clause.IsRead typed) (span : Span) : (Import.ofClause span clause).IsRead typed := by
  have bindings := Import.ofClause_bindings span clause
  have marks : (Import.ofClause span clause).isTypeOnly = true → clause.isTypeOnly = true ∨
      clause.bindings ≠ [] ∧ ∀ b ∈ clause.bindings, b.isTypeOnly = true := by
    simp [Import.ofClause]
  refine ⟨?_, ?_, ?_, ?_⟩
  · rw [bindings]
    intro b member
    obtain ⟨raw, listed, rfl⟩ := List.mem_map.mp member
    obtain ⟨isName, other, typed⟩ := read.bindings raw listed
    refine ⟨isName, other, fun marked => ?_⟩
    simp only [underMark, Bool.or_eq_true] at marked
    exact marked.elim typed read.typed
  · rw [bindings]
    intro marked b member
    obtain ⟨raw, listed, rfl⟩ := List.mem_map.mp member
    rcases marks marked with whole | ⟨-, all⟩
    · simp [underMark, whole]
    · simp [underMark, all raw listed]
  · intro marked
    rcases marks marked with whole | ⟨some_, all⟩
    · exact read.typed whole
    · obtain ⟨raw, listed⟩ := List.exists_mem_of_ne_nil _ some_
      exact (read.bindings raw listed).typed (all raw listed)
  · rw [bindings]
    intro b member kind
    obtain ⟨raw, listed, rfl⟩ := List.mem_map.mp member
    obtain ⟨value, shape⟩ := ranked_whole read.ranked listed kind
    refine ⟨fun plain => ?_, ?_⟩
    · have unmarked : clause.isTypeOnly = false := by
        simp only [Import.ofClause, Bool.or_eq_false_iff] at plain
        exact plain.1
      simp [underMark, value, unmarked]
    · rcases shape with alone | ⟨d, first, pair⟩
      · exact .inl (by rw [alone]; rfl)
      · exact .inr ⟨underMark clause.isTypeOnly d, first, by rw [pair]; rfl⟩

namespace Extension

-- The mark of the statement is not repeated, and one of the default export is lost.
def reread (isTypeImport : Bool) (b : ImportBinding) : ImportBinding :=
  { b with isTypeOnly := b.isTypeOnly && !isTypeImport && b.imported != .defaultExport }

def asWritten (isTypeImport : Bool) (b : ImportBinding) : ImportBinding :=
  { b with isTypeOnly := b.isTypeOnly && (isTypeImport || b.imported != .defaultExport) }

def clauseText (isTypeImport : Bool) (kept : List ImportBinding) : String :=
  ", ".intercalate (bareBindings kept ++
    (if (namedBindings isTypeImport kept).isEmpty then []
      else ["\x7b " ++ ", ".intercalate (namedBindings isTypeImport kept) ++ " \x7d"]))

theorem clauseText_eq (isTypeImport : Bool) (kept : List ImportBinding) :
    clauseText isTypeImport kept = ", ".intercalate (bareBindings kept ++
      if namedBindings isTypeImport kept = [] then []
      else ["\x7b " ++ ", ".intercalate (namedBindings isTypeImport kept) ++ " \x7d"]) := by
  simp only [clauseText, List.isEmpty_iff]

theorem toList_partialImport (isTypeImport : Bool) (kept : List ImportBinding) (specifier : String)
    (quote : Char) :
    (partialImport isTypeImport kept specifier (String.singleton quote)).toList =
      statementText isTypeImport ([' '] ++ (clauseText isTypeImport kept).toList)
        (quote :: (specifier.toList ++ [quote])) := by
  have text : partialImport isTypeImport kept specifier (String.singleton quote) =
      (if isTypeImport then "import type" else "import") ++ " " ++ clauseText isTypeImport kept ++
        " from " ++ String.singleton quote ++ specifier ++ String.singleton quote ++ ";" :=
    rfl
  rw [text]
  cases isTypeImport <;> simp [statementText_eq]

theorem toList_namedBinding (isTypeImport : Bool) (name : String) (b : ImportBinding) :
    ' ' :: (namedBinding isTypeImport name b).toList =
      specifierText (b.isTypeOnly && !isTypeImport) name.toList b.localName.toList := by
  by_cases same : name = b.localName
  · cases marked : b.isTypeOnly && !isTypeImport <;>
      simp [namedBinding, specifierText, aliased, same, marked]
  · have other : name.toList ≠ b.localName.toList := fun equal => same (String.toList_inj.mp equal)
    cases marked : b.isTypeOnly && !isTypeImport <;>
      simp [namedBinding, specifierText, aliased, same, other, marked]

section Parts

variable {kept : List ImportBinding}

def defaults (kept : List ImportBinding) : List ImportBinding :=
  kept.filter (·.imported == .defaultExport)

def others (kept : List ImportBinding) : List ImportBinding :=
  kept.filter (·.imported != .defaultExport)

theorem bareBindings_eq (part : ∀ b ∈ kept, b.imported ≠ .wholeModule) :
    bareBindings kept = (defaults kept).map ImportBinding.localName := by
  induction kept with
  | nil => rfl
  | cons b rest ih =>
    obtain ⟨first, later⟩ := List.forall_mem_cons.mp part
    have tail := ih later
    cases kind : b.imported with
    | defaultExport => simp_all [bareBindings, defaults]
    | wholeModule => exact absurd kind first
    | named name => simp_all [bareBindings, defaults]

theorem map_namedBindings (isTypeImport : Bool) (part : ∀ b ∈ kept, b.imported ≠ .wholeModule) :
    (namedBindings isTypeImport kept).map (fun text => ' ' :: text.toList) =
      ((others kept).map (reread isTypeImport)).map bindingText := by
  induction kept with
  | nil => rfl
  | cons b rest ih =>
    obtain ⟨first, later⟩ := List.forall_mem_cons.mp part
    have tail := ih later
    cases kind : b.imported with
    | defaultExport => simpa [namedBindings, others, kind] using tail
    | wholeModule => exact absurd kind first
    | named name =>
      have other : (b.imported != .defaultExport) = true := by simp [kind]
      have text : bindingText (reread isTypeImport b) =
          ' ' :: (namedBinding isTypeImport name b).toList := by
        rw [toList_namedBinding, reread, other, Bool.and_true]
        simp [bindingText, kind]
      simpa [namedBindings, others, kind, text] using tail

def bracesText (bs : List ImportBinding) : List Char :=
  [' '] ++ "\x7b".toList ++ ([','].intercalate (bs.map bindingText) ++ ([' '] ++ "\x7d".toList))

theorem toList_braces {texts : List String} {bs : List ImportBinding} (some_ : texts ≠ [])
    (same : texts.map (fun text => ' ' :: text.toList) = bs.map bindingText) :
    ' ' :: ("\x7b " ++ ", ".intercalate texts ++ " \x7d").toList = bracesText bs := by
  obtain ⟨first, others, rfl⟩ := List.exists_cons_of_ne_nil some_
  rw [bracesText, ← same]
  simp [String.toList_intercalate, intercalate_cons_eq, List.flatMap_map]

theorem toList_clauseText (isTypeImport : Bool) (part : ∀ b ∈ kept, b.imported ≠ .wholeModule) :
    (others kept = [] → clauseText isTypeImport kept = ", ".intercalate
      ((defaults kept).map ImportBinding.localName)) ∧
    ∀ {b bs}, (others kept).map (reread isTypeImport) = b :: bs →
      (defaults kept = [] →
        [' '] ++ (clauseText isTypeImport kept).toList = bracesText (b :: bs)) ∧
      ∀ {d}, defaults kept = [d] → [' '] ++ (clauseText isTypeImport kept).toList =
        [' '] ++ d.localName.toList ++ ([','] ++ bracesText (b :: bs)) := by
  have texts := map_namedBindings isTypeImport part
  rw [clauseText, bareBindings_eq part]
  refine ⟨fun none => ?_, fun {b bs} found => ?_⟩
  · have empty : namedBindings isTypeImport kept = [] := by simpa [none] using texts
    simp [empty]
  · rw [found] at texts
    have filled : namedBindings isTypeImport kept ≠ [] := by
      intro empty
      simp [empty] at texts
    have braces := toList_braces filled texts
    rw [if_neg (by simpa using filled)]
    refine ⟨fun none => ?_, fun {d} one => ?_⟩
    · rw [none, ← braces]
      simp
    · rw [one, ← braces]
      simp

theorem length_le_intercalate (xs : List (List Char)) :
    xs.length ≤ ([','].intercalate xs).length + 1 := by
  cases xs with
  | nil => simp
  | cons x xs =>
    induction xs generalizing x with
    | nil => simp
    | cons y ys ih =>
      have later := ih y
      simp only [List.intercalate_cons_cons, List.length_append, List.length_cons] at later ⊢
      simp
      omega

end Parts

section Written

variable {i : Import} {kept : List ImportBinding} {g : Grammar} {tail : List Char}

theorem reread_default {b : ImportBinding} (imported : b.imported = .defaultExport)
    (isTypeImport : Bool) : reread isTypeImport b = ⟨b.localName, .defaultExport, false⟩ := by
  simp [reread, imported]

theorem reread_whole {isTypeImport : Bool} {b : ImportBinding}
    (imported : b.imported = .wholeModule)
    (value : isTypeImport = false → b.isTypeOnly = false) :
    reread isTypeImport b = ⟨b.localName, .wholeModule, false⟩ := by
  cases isTypeImport with
  | true => simp [reread, imported]
  | false => simp [reread, imported, value rfl]

theorem written_braces {b : ImportBinding} {bs : List ImportBinding} (rest : List Char)
    (bounded : bs.length + 1 < g.bound)
    (each : ∀ x ∈ b :: bs, ∃ name, IsSpecifier g.isTyped x name) :
    (g.namedImports <|> namespaceImport).Takes (bracesText (b :: bs)) rest (· = b :: bs) :=
  (takes_namedImports bounded each).orElse

def wholeText (name : String) : List Char :=
  [' '] ++ '*' :: ([' '] ++ "as".toList ++ ([' '] ++ name.toList))

theorem written_whole {name : String} {rest : List Char} (isName : IsName name.toList)
    (ends : EndsName rest) :
    (g.namedImports <|> namespaceImport).Takes (wholeText name) rest
      (· = [⟨name, .wholeModule, false⟩]) := by
  have takes := takes_namespaceImport isName ends
  rw [String.ofList_toList] at takes
  refine Refuses.orElse_takes (Refuses.bind (Peeks.refuses_symbol ?_)) takes
  exact peeks_lookingAt_other (x := '{') rfl (by decide) isBlank_space
    (isSolid_cons (by decide) (by decide))

-- One name at most for the default export, and none that needs quotes.
structure Readable (kept : List ImportBinding) : Prop where
  one : (defaults kept).length ≤ 1
  words : ∀ b ∈ kept, ∀ name, b.imported = .named name → IsName name.toList

structure Writable (i : Import) (kept : List ImportBinding) : Prop extends Readable kept where
  values : i.isTypeOnly = false → ∀ b ∈ kept, b.imported = .defaultExport → b.isTypeOnly = false

theorem exists_isSpecifier (read : i.IsRead g.isTyped) (subset : kept.Sublist i.bindings)
    (readable : Readable kept) (part : ∀ b ∈ kept, b.imported ≠ .wholeModule) :
    ∀ x ∈ (others kept).map (reread i.isTypeOnly), ∃ name, IsSpecifier g.isTyped x name := by
  intro x member
  obtain ⟨b, listed, rfl⟩ := List.mem_map.mp member
  obtain ⟨inKept, other⟩ := List.mem_filter.mp listed
  obtain ⟨isGiven, notDefault, typed⟩ := read.bindings b (subset.subset inKept)
  cases kind : b.imported with
  | defaultExport => simp [kind] at other
  | wholeModule => exact absurd kind (part b inKept)
  | named name =>
    refine ⟨name, kind, ?_, readable.words b inKept name kind, isGiven, ?_⟩
    · rintro rfl
      exact notDefault kind
    · intro marked
      simp only [reread, Bool.and_eq_true] at marked
      exact typed marked.1.1

theorem length_bracesText (bs : List ImportBinding) : bs.length + 3 ≤ (bracesText bs).length := by
  have enough := length_le_intercalate (bs.map bindingText)
  simp [bracesText] at enough ⊢
  omega

theorem written_parts (read : i.IsRead g.isTyped) (subset : kept.Sublist i.bindings)
    (some_ : kept ≠ []) (readable : Readable kept)
    (part : ∀ b ∈ kept, b.imported ≠ .wholeModule)
    (bounded : (clauseText i.isTypeOnly kept).length < g.bound) :
    Written g (Written.fromText tail) ([' '] ++ (clauseText i.isTypeOnly kept).toList)
      ((defaults kept ++ others kept).map (reread i.isTypeOnly)) := by
  have each := exists_isSpecifier read subset readable part
  have all : (defaults kept ++ others kept).Perm kept := List.filter_append_perm _ _
  have first {d : ImportBinding} {more : List ImportBinding} (found : defaults kept = d :: more) :
      IsName d.localName.toList ∧
        reread i.isTypeOnly d = ⟨d.localName, .defaultExport, false⟩ := by
    have member : d ∈ defaults kept := by simp [found]
    obtain ⟨inKept, kind⟩ := List.mem_filter.mp member
    have kind : d.imported = .defaultExport := by simpa using kind
    exact ⟨(read.bindings d (subset.subset inKept)).name,
      reread_default kind i.isTypeOnly⟩
  have group {b : ImportBinding} {bs : List ImportBinding}
      (found : (others kept).map (reread i.isTypeOnly) = b :: bs)
      (within : (bracesText (b :: bs)).length ≤ (clauseText i.isTypeOnly kept).length + 1) :
      (g.namedImports <|> namespaceImport).Takes (bracesText (b :: bs)) (Written.fromText tail)
        (· = b :: bs) := by
    have enough := length_bracesText (b :: bs)
    simp only [List.length_cons] at enough
    exact written_braces _ (by omega) (found ▸ each)
  obtain ⟨alone, joined⟩ := toList_clauseText i.isTypeOnly part
  rw [List.map_append]
  rcases none : defaults kept with _ | ⟨d, _ | ⟨_, _⟩⟩
  · cases found : (others kept).map (reread i.isTypeOnly) with
    | nil => simp_all
    | cons b bs =>
      have text := (joined found).1 none
      have lengths := congrArg List.length text
      simp only [List.length_append, List.length_singleton, String.length_toList] at lengths
      rw [text]
      exact .group (.inl rfl) (group found (by omega))
  · obtain ⟨isName, same⟩ := first none
    cases found : (others kept).map (reread i.isTypeOnly) with
    | nil =>
      rw [alone (by simpa using found), none]
      have single : Written g (Written.fromText tail) ([' '] ++ d.localName.toList) _ :=
        .single isName
      simpa [same] using single
    | cons b bs =>
      have text := (joined found).2 none
      have lengths := congrArg List.length text
      simp only [List.length_append, List.length_singleton, String.length_toList] at lengths
      have both := Written.both isName (group found (by omega))
      rw [text]
      simpa [same] using both
  · have one := readable.one
    simp [none] at one

-- A name for the whole module stands alone or after one for the default export.
theorem kept_of_whole {w : ImportBinding} (subset : kept.Sublist i.bindings) (member : w ∈ kept)
    (kind : w.imported = .wholeModule)
    (shape : i.bindings = [w] ∨ ∃ d, d.imported = .defaultExport ∧ i.bindings = [d, w]) :
    kept = [w] ∨ ∃ d, d.imported = .defaultExport ∧ kept = [d, w] := by
  rcases shape with alone | ⟨d, first, pair⟩
  · rw [alone] at subset
    exact .inl (subset.eq_of_length_le (List.length_pos_of_mem member))
  · rw [pair] at subset
    rcases List.sublist_cons_iff.mp subset with later | ⟨more, rfl, later⟩
    · exact .inl (later.eq_of_length_le (List.length_pos_of_mem member))
    · have inMore : w ∈ more := by
        rcases List.mem_cons.mp member with rfl | inMore
        · rw [kind] at first
          cases first
        · exact inMore
      exact .inr ⟨d, first, by rw [later.eq_of_length_le (List.length_pos_of_mem inMore)]⟩

theorem written_kept (read : i.IsRead g.isTyped) (subset : kept.Sublist i.bindings)
    (some_ : kept ≠ []) (readable : Readable kept)
    (bounded : (clauseText i.isTypeOnly kept).length < g.bound) :
    Written g (Written.fromText tail) ([' '] ++ (clauseText i.isTypeOnly kept).toList)
      ((defaults kept ++ others kept).map (reread i.isTypeOnly)) := by
  by_cases part : ∀ b ∈ kept, b.imported ≠ .wholeModule
  · exact written_parts read subset some_ readable part bounded
  push Not at part
  obtain ⟨w, member, kind⟩ := part
  obtain ⟨value, shape⟩ := read.whole w (subset.subset member) kind
  have isName := (read.bindings w (subset.subset member)).name
  have same : reread i.isTypeOnly w = ⟨w.localName, .wholeModule, false⟩ :=
    reread_whole kind value
  have group : (g.namedImports <|> namespaceImport).Takes (wholeText w.localName)
      (Written.fromText tail) (· = [reread i.isTypeOnly w]) := by
    rw [same]
    exact written_whole isName (endsName_space _)
  rcases kept_of_whole subset member kind shape with rfl | ⟨d, first, rfl⟩
  · have text : [' '] ++ (clauseText i.isTypeOnly [w]).toList = wholeText w.localName := by
      simp [clauseText, bareBindings, namedBindings, kind, wholeText]
    have alone : Written g (Written.fromText tail) (wholeText w.localName) _ :=
      Written.group (.inr rfl) group
    rw [text]
    simpa [defaults, others, kind] using alone
  · have text : [' '] ++ (clauseText i.isTypeOnly [d, w]).toList =
        [' '] ++ d.localName.toList ++ ([','] ++ wholeText w.localName) := by
      simp [clauseText, bareBindings, namedBindings, first, kind, wholeText]
    have given := (read.bindings d (subset.subset List.mem_cons_self)).name
    have bare : reread i.isTypeOnly d = ⟨d.localName, .defaultExport, false⟩ :=
      reread_default first i.isTypeOnly
    rw [text]
    simpa [defaults, others, first, kind, bare] using Written.both given group

end Written

theorem underMark_reread {typed : Bool} {i : Import} (read : i.IsRead typed) {b : ImportBinding}
    (member : b ∈ i.bindings) :
    underMark i.isTypeOnly (reread i.isTypeOnly b) = asWritten i.isTypeOnly b := by
  cases marked : i.isTypeOnly with
  | true => simp [underMark, reread, asWritten, read.marks marked b member]
  | false => simp [underMark, reread, asWritten]

theorem asWritten_of_values {i : Import} {kept : List ImportBinding}
    (values : i.isTypeOnly = false → ∀ b ∈ kept, b.imported = .defaultExport →
      b.isTypeOnly = false) : kept.map (asWritten i.isTypeOnly) = kept := by
  refine (List.map_congr_left fun b member => ?_).trans (List.map_id kept)
  cases marked : i.isTypeOnly with
  | true => simp [asWritten]
  | false =>
    by_cases kind : b.imported = .defaultExport
    · have value := values marked b member kind
      rw [asWritten, value, Bool.false_and, ← value]
      rfl
    · rw [asWritten, bne_iff_ne.mpr kind, Bool.or_true, Bool.and_true]
      rfl

def ReadAs (language : Language) (text specifier : String) (bindings : List ImportBinding) : Prop :=
  ∃ statement i, readStatements? language text = some [statement] ∧
    Import.ofStatement? statement = some i ∧ i.specifier = specifier ∧ i.bindings.Perm bindings

theorem readAs_partialImport {language : Language} {i : Import} {kept : List ImportBinding}
    {specifier : String} {quote : Char} (read : i.IsRead (language == .typeScript))
    (subset : kept.Sublist i.bindings) (some_ : kept ≠ []) (readable : Readable kept)
    (string : IsString (quote :: (specifier.toList ++ [quote]))) :
    ReadAs language (partialImport i.isTypeOnly kept specifier (String.singleton quote)) specifier
      (kept.map (asWritten i.isTypeOnly)) := by
  have whole := toList_partialImport i.isTypeOnly kept specifier quote
  have size : (clauseText i.isTypeOnly kept).length ≤
      (partialImport i.isTypeOnly kept specifier (String.singleton quote)).length := by
    have lengths := congrArg List.length whole
    simp only [statementText_eq, List.length_append, String.length_toList] at lengths
    omega
  obtain ⟨_, result, lexeme, clause, rfl, marked, bindings, literal⟩ :=
    readStatements?_statementText whole read.typed string fun g typed bounded =>
      written_kept (typed ▸ read) subset some_ readable (Nat.lt_of_le_of_lt size bounded)
  refine ⟨_, _, result, rfl, ?_, ?_⟩
  · have isQuote : Text.isQuote quote = true := by
      obtain ⟨_, _, _, text, -, isQuote, -⟩ := stringLength?_eq string
      rwa [List.cons.inj text |>.1]
    simp [Import.ofClause, literal, Text.unquote, isQuote]
  · -- The mark of the statement gives each binding back its own.
    rw [Import.ofClause_bindings, bindings, marked, List.map_map]
    have same : (defaults kept ++ others kept).map
        (underMark i.isTypeOnly ∘ reread i.isTypeOnly) =
          (defaults kept ++ others kept).map (asWritten i.isTypeOnly) :=
      List.map_congr_left fun b listed => underMark_reread read
        (subset.subset ((List.filter_append_perm _ kept).mem_iff.mp listed))
    rw [same]
    exact (List.filter_append_perm _ _).map _

theorem isRead_of_readStatements? {language : Language} {source : String}
    {statements : List Statement} {statement : Statement} {i : Import}
    (parsed : readStatements? language source = some statements) (member : statement ∈ statements)
    (found : Import.ofStatement? statement = some i) : i.IsRead (language == .typeScript) := by
  cases statement with
  | importFrom lexeme clause =>
    cases found
    exact Import.isRead_of_ofClause (readStatements?_imports parsed _ member) _
  | _ => cases found

theorem partialImport_reads_back {language : Language} {source : String}
    {statements : List Statement} {statement : Statement} {i : Import} {kept : List ImportBinding}
    {specifier : String} {quote : Char}
    (parsed : readStatements? language source = some statements) (member : statement ∈ statements)
    (found : Import.ofStatement? statement = some i) (subset : kept.Sublist i.bindings)
    (some_ : kept ≠ []) (writable : Writable i kept)
    (string : IsString (quote :: (specifier.toList ++ [quote]))) :
    ∃ again j,
      readStatements? language
        (partialImport i.isTypeOnly kept specifier (String.singleton quote)) = some [again] ∧
      Import.ofStatement? again = some j ∧ j.specifier = specifier ∧ j.bindings.Perm kept := by
  have read := isRead_of_readStatements? parsed member found
  have again := readAs_partialImport read subset some_ writable.toReadable string
  rwa [asWritten_of_values writable.values] at again

def mixedSource : String :=
  "import Base, \x7b type Kind as K, plain \x7d from './base';"

theorem partialImport_reads_back_mixed :
    let kept : List ImportBinding :=
      [⟨"Base", .defaultExport, false⟩, ⟨"K", .named "Kind", true⟩]
    ∃ statements statement i, readStatements? .typeScript mixedSource = some statements ∧
      statement ∈ statements ∧ Import.ofStatement? statement = some i ∧
      kept.Sublist i.bindings ∧ kept.length < i.bindings.length ∧
      ∃ again j,
        readStatements? .typeScript
          (partialImport i.isTypeOnly kept "../base" (String.singleton '\'')) = some [again] ∧
        Import.ofStatement? again = some j ∧ j.specifier = "../base" ∧ j.bindings.Perm kept := by
  intro kept
  have shape : (readStatements? .typeScript mixedSource).any (·.any fun s =>
      (Import.ofStatement? s).any fun i => !i.isTypeOnly &&
        i.bindings == kept ++ [⟨"plain", .named "plain", false⟩]) = true := by
    decide +kernel
  obtain ⟨statements, parsed, shape⟩ := (Option.any_eq_true _ _).mp shape
  obtain ⟨statement, member, shape⟩ := List.any_eq_true.mp shape
  obtain ⟨i, found, shape⟩ := (Option.any_eq_true _ _).mp shape
  rw [Bool.and_eq_true, beq_iff_eq] at shape
  have subset : kept.Sublist i.bindings := shape.2 ▸ List.sublist_append_left _ _
  have writable : Writable i kept := by
    refine ⟨⟨by decide, ?_⟩, ?_⟩
    · intro b listed name kind
      simp only [kept, List.mem_cons, List.not_mem_nil, or_false] at listed
      rcases listed with rfl | rfl
      · cases kind
      · cases kind
        decide
    · intro _ b listed kind
      simp only [kept, List.mem_cons, List.not_mem_nil, or_false] at listed
      rcases listed with rfl | rfl
      · rfl
      · cases kind
  refine ⟨statements, statement, i, parsed, member, found, subset, by simp [shape.2], ?_⟩
  exact partialImport_reads_back parsed member found subset (by simp [kept]) writable (by decide)

def bindingsRead (language : Language) (source : String) : Option (List (List ImportBinding)) :=
  (readStatements? language source).map fun statements =>
    (statements.filterMap Import.ofStatement?).map Import.bindings

theorem partialImport_alters :
    (bindingsRead .javaScript "import D, \x7b default as X, y \x7d from './m';" =
        some [[⟨"D", .defaultExport, false⟩, ⟨"X", .defaultExport, false⟩,
          ⟨"y", .named "y", false⟩]] ∧
      bindingsRead .javaScript (partialImport false
        [⟨"D", .defaultExport, false⟩, ⟨"X", .defaultExport, false⟩] "../m" "'") = none) ∧
    (bindingsRead .javaScript "import \x7b 'a-b' as x, y \x7d from './m';" =
        some [[⟨"x", .named "a-b", false⟩, ⟨"y", .named "y", false⟩]] ∧
      bindingsRead .javaScript
        (partialImport false [⟨"x", .named "a-b", false⟩] "../m" "'") = none) ∧
    (bindingsRead .typeScript "import \x7b type default as X, y \x7d from './m';" =
        some [[⟨"X", .defaultExport, true⟩, ⟨"y", .named "y", false⟩]] ∧
      bindingsRead .typeScript (partialImport false [⟨"X", .defaultExport, true⟩] "../m" "'") =
        some [[⟨"X", .defaultExport, false⟩]]) := by
  decide +kernel

end Extension

end SchemaMigration
