import SchemaMigration.Proofs.ImportClauses
import SchemaMigration.Proofs.StringContents

set_option autoImplicit false

namespace SchemaMigration.Source

section Names

variable {s : List Char}

theorem not_isQuote_of_isNameStart {c : Char} (start : isNameStart c = true ∨ c = '\\') :
    Text.isQuote c = false := by
  rcases start with start | rfl
  · simp only [isNameStart, Bool.and_eq_true] at start
    obtain ⟨-, plain⟩ := isSpace_of_isNameChar start.1
    by_contra quote
    have kind : c = '\'' ∨ c = '"' ∨ c = '\x60' := by
      rw [Bool.not_eq_false] at quote
      simpa [Text.isQuote, or_assoc] using quote
    rcases kind with rfl | rfl | rfl <;> exact absurd plain (by decide)
  · decide

theorem StartsName.stringLength? (starts : StartsName s) : Source.stringLength? s = none := by
  obtain ⟨c, rest, rfl, start⟩ := starts
  have bare := not_isQuote_of_isNameStart start
  simp only [Text.isQuote, Bool.or_eq_false_iff] at bare
  simp [Source.stringLength?, bare]

theorem IsName.unquote (name : IsName s) : Text.unquote (String.ofList s) = String.ofList s := by
  obtain ⟨c, rest, rfl, start⟩ := name.startsName
  simp [Text.unquote, Text.unquoteChars, not_isQuote_of_isNameStart start]

theorem endsName_append {blank : List Char} (blanks : IsBlank blank) (ends : EndsName s) :
    EndsName (blank ++ s) := by
  cases blank with
  | nil => exact ends
  | cons x blank =>
    rintro _ ⟨⟩
    have space := blanks x List.mem_cons_self
    refine ⟨by simp [isNameChar, space], ?_⟩
    rintro rfl
    exact absurd space (by decide)

theorem IsString.isSolid (string : IsString s) (rest : List Char) : IsSolid (s ++ rest) := by
  obtain ⟨q, body, after, rfl, -, isQuote, -⟩ := stringLength?_eq string
  have kind : q = '\'' ∨ q = '"' ∨ q = '\x60' := by
    simpa [Text.isQuote, or_assoc] using isQuote
  rcases kind with rfl | rfl | rfl <;> exact isSolid_cons (by decide) (by decide)

theorem endsName_space (s : List Char) : EndsName (' ' :: s) := by
  rintro _ ⟨⟩
  exact ⟨by decide, by decide⟩

end Names

def EndsBinding (after : List Char) : Prop :=
  ∃ blank c more, IsBlank blank ∧ after = blank ++ c :: more ∧ (c = ',' ∨ c = '}')

open Source.Parser

section Bindings

variable {after : List Char}

theorem EndsBinding.endsName (ends : EndsBinding after) : EndsName after := by
  obtain ⟨blank, c, more, blanks, rfl, kind⟩ := ends
  refine endsName_append blanks ?_
  rintro _ ⟨⟩
  rcases kind with rfl | rfl <;> exact ⟨by decide, by decide⟩

theorem EndsBinding.eq_append (ends : EndsBinding after) :
    ∃ blank s, IsBlank blank ∧ after = blank ++ s ∧ IsSolid s ∧ nameLength? s = none ∧
      ([','].isPrefixOf s || ['}'].isPrefixOf s) = true := by
  obtain ⟨blank, c, more, blanks, rfl, kind⟩ := ends
  refine ⟨blank, c :: more, blanks, rfl, ?_⟩
  rcases kind with rfl | rfl
  · exact ⟨isSolid_cons (by decide) (by decide), rfl, rfl⟩
  · exact ⟨isSolid_cons (by decide) (by decide), rfl, rfl⟩

theorem EndsBinding.peeks_nextWord (ends : EndsBinding after) : nextWord.Peeks after "" := by
  obtain ⟨blank, s, blanks, rfl, solid, none, -⟩ := ends.eq_append
  exact peeks_nextWord_none blanks solid none

theorem EndsBinding.refuses_word (ends : EndsBinding after) : word.Refuses after := by
  obtain ⟨blank, s, blanks, rfl, solid, none, -⟩ := ends.eq_append
  exact refuses_token blanks solid none

theorem EndsBinding.takes_end (ends : EndsBinding after) (b : ImportBinding) :
    (do
      guard ((← lookingAt ",") || (← lookingAt "\x7d"))
      return b : Parser ImportBinding).Takes [] after (· = b) := by
  obtain ⟨blank, s, blanks, rfl, solid, -, kind⟩ := ends.eq_append
  refine (peeks_lookingAt "," blanks solid).bind (t := []) ?_
  refine (peeks_lookingAt "\x7d" blanks solid).bind (t := []) ?_
  exact takes_guard kind (takes_pure rfl)

end Bindings

namespace Grammar

variable {g : Grammar} {blank name given after : List Char}

theorem takes_moduleName (blanks : IsBlank blank) (isName : IsName name) (ends : EndsName after) :
    moduleName.Takes (blank ++ name) after (·.text = String.ofList name) := by
  have starts := isName.startsName.append after
  have other : (token stringLength?).Refuses (blank ++ name ++ after) := by
    rw [List.append_assoc]
    exact refuses_token blanks starts.isSolid starts.stringLength?
  exact other.orElse_takes (takes_word blanks isName ends)

theorem takes_importedBinding (isTypeOnly : Bool) (blanks : IsBlank blank) (isName : IsName name)
    (ends : EndsBinding after) :
    (importedBinding isTypeOnly).Takes (blank ++ name) after
      (· = ⟨String.ofList name, importedName (String.ofList name), isTypeOnly⟩) := by
  unfold importedBinding
  refine (takes_moduleName blanks isName ends.endsName).bind_nil fun l text => ?_
  rw [text, isName.unquote]
  refine ends.peeks_nextWord.bind (t := []) ?_
  exact takes_guard (beq_self_eq_true _) (ends.takes_end _)

theorem takes_importedBinding_as (isTypeOnly : Bool) (blanks : IsBlank blank)
    (isName : IsName name) (isGiven : IsName given) (ends : EndsBinding after) :
    (importedBinding isTypeOnly).Takes (blank ++ name ++ ([' '] ++ "as".toList ++ ([' '] ++ given)))
      after (· = ⟨String.ofList given, importedName (String.ofList name), isTypeOnly⟩) := by
  have isAs : IsName "as".toList := by decide
  unfold importedBinding
  refine (takes_moduleName blanks isName (endsName_space _)).bind fun l text => ?_
  rw [text, isName.unquote]
  have next := peeks_nextWord isBlank_space isAs (endsName_space (given ++ after))
  refine Peeks.bind (by simpa using next) ?_
  refine Takes.bind (takes_keyword "as" isBlank_space isAs (endsName_space _)) fun _ _ => ?_
  refine (takes_word isBlank_space isGiven ends.endsName).bind_nil fun l text => ?_
  rw [text]
  exact ends.takes_end _

def aliased (name given : List Char) : List Char :=
  if name = given then name else name ++ ([' '] ++ "as".toList ++ ([' '] ++ given))

theorem takes_aliased (isTypeOnly : Bool) (blanks : IsBlank blank) (isName : IsName name)
    (isGiven : IsName given) (ends : EndsBinding after) :
    (importedBinding isTypeOnly).Takes (blank ++ aliased name given) after
      (· = ⟨String.ofList given, importedName (String.ofList name), isTypeOnly⟩) := by
  unfold aliased
  split
  next same =>
    rw [← same]
    exact takes_importedBinding isTypeOnly blanks isName ends
  next =>
    rw [← List.append_assoc]
    exact takes_importedBinding_as isTypeOnly blanks isName isGiven ends

theorem refuses_end {s : List Char} (blanks : IsBlank blank) (starts : StartsName s)
    (b : ImportBinding) :
    (do
      guard ((← lookingAt ",") || (← lookingAt "\x7d"))
      return b : Parser ImportBinding).Refuses (blank ++ s) := by
  have comma : (lookingAt ",").Peeks (blank ++ s) false :=
    starts.peeks_lookingAt rfl (by decide) blanks
  have brace : (lookingAt "\x7d").Peeks (blank ++ s) false :=
    starts.peeks_lookingAt rfl (by decide) blanks
  exact comma.bind_refuses (brace.bind_refuses (refuses_guard (by decide)))

theorem aliased_append (name given : List Char) (ends : EndsBinding after) :
    ∃ tail, aliased name given ++ after = name ++ tail ∧ EndsName tail ∧
      (EndsBinding tail ∨ tail = [' '] ++ "as".toList ++ ([' '] ++ (given ++ after))) := by
  unfold aliased
  split
  next => exact ⟨after, rfl, ends.endsName, .inl ends⟩
  next => exact ⟨_, by simp, endsName_space _, .inr rfl⟩

-- The word `type` before a name cannot be the name itself.
theorem refuses_marked (isName : IsName name) (isGiven : IsName given) (ends : EndsBinding after) :
    (importedBinding false).Refuses
      ([' '] ++ "type".toList ++ ([' '] ++ aliased name given ++ after)) := by
  have isType : IsName "type".toList := by decide
  obtain ⟨tail, split, endsName, kind⟩ := aliased_append name given ends
  have apart : EndsName ([' '] ++ (name ++ tail)) := endsName_space _
  rw [List.append_assoc [' '] (aliased name given), split]
  unfold importedBinding
  refine (takes_moduleName isBlank_space isType apart).bind_refuses fun l text => ?_
  rw [text, isType.unquote]
  refine (peeks_nextWord isBlank_space isName endsName).bind_refuses ?_
  by_cases same : String.ofList name = "as"
  · -- It would have to be given the name that follows, and the list would have to go on after it.
    obtain rfl : name = "as".toList := by rw [← same, String.toList_ofList]
    rw [if_pos (by simp)]
    rw [← List.append_assoc]
    refine (takes_keyword "as" isBlank_space isName endsName).bind_refuses fun _ _ => ?_
    rcases kind with finished | rfl
    · exact finished.refuses_word.bind
    · refine (takes_word isBlank_space isName (endsName_space _)).bind_refuses fun l text => ?_
      exact refuses_end isBlank_space (isGiven.startsName.append after) _
  · rw [if_neg (by simpa using same)]
    exact (refuses_end isBlank_space (isName.startsName.append tail) _).guard_bind

def specifierText (marked : Bool) (name given : List Char) : List Char :=
  if marked then [' '] ++ "type".toList ++ ([' '] ++ aliased name given)
  else [' '] ++ aliased name given

theorem takes_importSpecifier {marked : Bool} (typed : marked = true → g.isTyped = true)
    (isName : IsName name) (isGiven : IsName given) (ends : EndsBinding after) :
    g.importSpecifier.Takes (specifierText marked name given) after
      (· = ⟨String.ofList given, importedName (String.ofList name), marked⟩) := by
  cases marked with
  | false => exact (takes_aliased false isBlank_space isName isGiven ends).orElse
  | true =>
    have isType : IsName "type".toList := by decide
    refine Refuses.orElse_takes ?_ (Takes.orElse (takes_guard (typed rfl) ?_))
    · rw [specifierText, if_pos rfl, List.append_assoc]
      exact refuses_marked isName isGiven ends
    · refine Takes.bind (takes_keyword "type" isBlank_space isType (endsName_space _)) fun _ _ => ?_
      exact takes_aliased true isBlank_space isName isGiven ends

theorem specifierText_eq (marked : Bool) (isName : IsName name) (given : List Char) :
    ∃ s, specifierText marked name given = [' '] ++ s ∧ StartsName s := by
  have starts : StartsName (aliased name given) := by
    unfold aliased
    split
    · exact isName.startsName
    · exact isName.startsName.append _
  cases marked with
  | false => exact ⟨_, rfl, starts⟩
  | true => exact ⟨_, rfl, 't', _, rfl, .inl (by decide)⟩

structure IsSpecifier (typed : Bool) (b : ImportBinding) (name : String) : Prop where
  imported : b.imported = .named name
  other : name ≠ "default"
  isName : IsName name.toList
  isGiven : IsName b.localName.toList
  typed : b.isTypeOnly = true → typed = true

def bindingText (b : ImportBinding) : List Char :=
  match b.imported with
  | .named name => specifierText b.isTypeOnly name.toList b.localName.toList
  | .defaultExport | .wholeModule => []

theorem IsSpecifier.bindingText {typed : Bool} {b : ImportBinding} {name : String}
    (ready : IsSpecifier typed b name) :
    bindingText b = specifierText b.isTypeOnly name.toList b.localName.toList := by
  simp [Grammar.bindingText, ready.imported]

theorem IsSpecifier.readsItem {b : ImportBinding} {name : String} {rest : List Char}
    (ready : IsSpecifier g.isTyped b name) :
    ReadsItem g.importSpecifier "\x7d" ([' '] ++ "\x7d".toList ++ rest) (Grammar.bindingText b)
      (b = ·) := by
  rw [ready.bindingText]
  refine ⟨fun after => ?_, fun after ends => ?_⟩
  · obtain ⟨s, text, starts⟩ := specifierText_eq b.isTypeOnly ready.isName b.localName.toList
    rw [text, List.append_assoc]
    exact (starts.append after).peeks_lookingAt rfl (by decide) isBlank_space
  · have finished : EndsBinding after := by
      rcases ends with ⟨more, rfl⟩ | rfl
      · exact ⟨[], ',', more, isBlank_nil, rfl, .inl rfl⟩
      · exact ⟨[' '], '}', rest, isBlank_space, rfl, .inr rfl⟩
    refine (takes_importSpecifier ready.typed ready.isName ready.isGiven finished).mono ?_
    rintro _ rfl
    have imported : importedName name = .named name := by simp [importedName, ready.other]
    simp only [String.ofList_toList, imported, ← ready.imported]

theorem closesList (rest : List Char) : ClosesList "\x7d" ([' '] ++ "\x7d".toList ++ rest) := by
  have solid : IsSolid ('}' :: rest) := isSolid_cons (by decide) (by decide)
  exact ⟨peeks_lookingAt "\x7d" isBlank_space solid, peeks_lookingAt "," isBlank_space solid⟩

theorem takes_namedImports {b : ImportBinding} {bs : List ImportBinding} {rest : List Char}
    (bounded : bs.length + 1 < g.bound)
    (each : ∀ x ∈ b :: bs, ∃ name, IsSpecifier g.isTyped x name) :
    g.namedImports.Takes
      ([' '] ++ "\x7b".toList ++ ([','].intercalate ((b :: bs).map bindingText) ++
        ([' '] ++ "\x7d".toList))) rest (· = b :: bs) := by
  have brace (s : List Char) : IsSolid ("\x7d".toList ++ s) := isSolid_cons (by decide) (by decide)
  have open' (s : List Char) : IsSolid ("\x7b".toList ++ s) := isSolid_cons (by decide) (by decide)
  refine (takes_symbol "\x7b" isBlank_space (open' _)).bind fun _ _ => ?_
  refine Takes.orElse ((takes_separated "\x7d" bounded isBlank_space (brace rest) (closesList rest)
    fun x member => (each x member).choose_spec.readsItem).mono fun as read => ?_)
  exact (List.forall₂_eq_eq_eq ▸ read : b :: bs = as).symm

theorem takes_namespaceImport {rest : List Char} (isName : IsName name) (ends : EndsName rest) :
    namespaceImport.Takes ([' '] ++ "*".toList ++ ([' '] ++ "as".toList ++ ([' '] ++ name))) rest
      (· = [⟨String.ofList name, .wholeModule, false⟩]) := by
  have star (s : List Char) : IsSolid ("*".toList ++ s) := isSolid_cons (by decide) (by decide)
  refine (takes_symbol "*" isBlank_space (star _)).bind fun _ _ => ?_
  refine Takes.bind (takes_keyword "as" isBlank_space (by decide) (endsName_space _)) fun _ _ => ?_
  refine (takes_word isBlank_space isName ends).gives fun l text => ?_
  rw [text]

inductive Written (g : Grammar) (rest : List Char) : List Char → List ImportBinding → Prop where
  | group {c : Char} {more : List Char} {bs : List ImportBinding} (kind : c = '{' ∨ c = '*')
      (takes : (g.namedImports <|> namespaceImport).Takes ([' '] ++ c :: more) rest (· = bs)) :
      Written g rest ([' '] ++ c :: more) bs
  | single {name : List Char} (isName : IsName name) :
      Written g rest ([' '] ++ name) [⟨String.ofList name, .defaultExport, false⟩]
  | both {name text : List Char} {bs : List ImportBinding} (isName : IsName name)
      (takes : (g.namedImports <|> namespaceImport).Takes text rest (· = bs)) :
      Written g rest ([' '] ++ name ++ ([','] ++ text))
        (⟨String.ofList name, .defaultExport, false⟩ :: bs)

theorem peeks_group {s : List Char} (starts : StartsName s) :
    (lookingAt "\x7b").Peeks ([' '] ++ s) false ∧ (lookingAt "*").Peeks ([' '] ++ s) false :=
  ⟨starts.peeks_lookingAt rfl (by decide) isBlank_space,
    starts.peeks_lookingAt rfl (by decide) isBlank_space⟩

namespace Written

variable {tail text rest : List Char} {bs : List ImportBinding}

def fromText (tail : List Char) : List Char :=
  [' '] ++ "from".toList ++ tail

theorem head (written : Written g rest text bs) :
    ∃ c more, text = [' '] ++ c :: more ∧ (∀ s, IsSolid (c :: s)) ∧ c ∉ ['\'', '"', ','] := by
  have named {s : List Char} (starts : StartsName s) :
      ∃ c more, s = c :: more ∧ (∀ s, IsSolid (c :: s)) ∧ c ∉ ['\'', '"', ','] := by
    obtain ⟨c, more, rfl, start⟩ := starts
    refine ⟨c, more, rfl, fun s => StartsName.isSolid ⟨c, s, rfl, start⟩, ?_⟩
    intro member
    simp only [List.mem_cons, List.not_mem_nil, or_false] at member
    rcases member with rfl | rfl | rfl <;> exact absurd start (by decide)
  cases written with
  | @group c more _ kind _ =>
    refine ⟨c, more, rfl, fun s => ?_, ?_⟩
    · rcases kind with rfl | rfl <;> exact isSolid_cons (by decide) (by decide)
    · rcases kind with rfl | rfl <;> decide
  | single isName =>
    obtain ⟨c, more, rfl, facts⟩ := named isName.startsName
    exact ⟨c, more, rfl, facts⟩
  | both isName _ =>
    obtain ⟨c, more, rfl, facts⟩ := named isName.startsName
    exact ⟨c, _, rfl, facts⟩

theorem not_lookingAt (written : Written g rest text bs) (symbol : String) {x : Char}
    (single : symbol.toList = [x]) (member : x ∈ ['\'', '"', ',']) (s after : List Char) :
    (lookingAt symbol).Peeks (text ++ s ++ after) false := by
  obtain ⟨c, more, rfl, solid, other⟩ := written.head
  rw [List.append_assoc, List.append_assoc]
  refine peeks_lookingAt_other single ?_ isBlank_space (solid _)
  rintro rfl
  exact other member

theorem takes_single (isName : IsName name) (ends : EndsName rest)
    (finished : (lookingAt ",").Peeks rest false) :
    g.importBindings.Takes ([' '] ++ name) rest
      (· = [⟨String.ofList name, .defaultExport, false⟩]) := by
  have looking := peeks_group (isName.startsName.append rest)
  rw [← List.append_assoc] at looking
  unfold importBindings
  refine looking.1.bind (looking.2.bind ?_)
  refine (takes_word isBlank_space isName ends).bind_nil fun l text => ?_
  refine finished.bind (t := []) ?_
  rw [text]
  exact takes_pure rfl

theorem takes (written : Written g (fromText tail) text bs) :
    g.importBindings.Takes text (fromText tail) (· = bs) := by
  have comma (s : List Char) : IsSolid (',' :: s) := isSolid_cons (by decide) (by decide)
  have starts : StartsName ("from".toList ++ tail) := ⟨'f', _, rfl, .inl (by decide)⟩
  cases written with
  | @group c more _ kind takes =>
    unfold importBindings
    have solid : IsSolid (c :: (more ++ fromText tail)) := by
      rcases kind with rfl | rfl <;> exact isSolid_cons (by decide) (by decide)
    have looking (text : String) : (lookingAt text).Peeks ([' '] ++ c :: more ++ fromText tail)
        (text.toList.isPrefixOf (c :: (more ++ fromText tail))) :=
      peeks_lookingAt text isBlank_space solid
    refine (looking "\x7b").bind ((looking "*").bind ?_)
    rw [if_pos]
    · exact takes
    · rcases kind with rfl | rfl <;> rfl
  | single isName =>
    exact takes_single isName (endsName_space _)
      (starts.peeks_lookingAt rfl (by decide) isBlank_space)
  | @both name text bs isName takes =>
    unfold importBindings
    have looking := peeks_group (isName.startsName.append ([','] ++ text ++ fromText tail))
    rw [← List.append_assoc, ← List.append_assoc] at looking
    refine looking.1.bind (looking.2.bind ?_)
    have ends : EndsName ([','] ++ text ++ fromText tail) := by
      rintro _ ⟨⟩
      exact ⟨by decide, by decide⟩
    refine (takes_word isBlank_space isName ends).bind fun l given => ?_
    have more : (lookingAt ",").Peeks ([','] ++ text ++ fromText tail) true :=
      peeks_lookingAt "," isBlank_nil (comma _)
    refine more.bind ?_
    refine (Takes.seqRight (takes_symbol "," isBlank_nil (comma _)) takes).gives ?_
    rintro _ rfl
    rw [given]

end Written

section Clauses

variable {literal text rest : List Char} {bs : List ImportBinding}

theorem takes_endStatement (operator : Bool) (rest : List Char) :
    (g.endStatement operator).Takes [';'] rest fun _ => True := by
  have dark : isSpace ';' = false := by decide
  have finished : (g.endRule operator).endLength? [';'] (';' :: rest) = some 1 := by
    unfold EndRule.endLength? EndRule.endFrom? EndRule.ends
    cases language : g.language <;>
      simp [endRule, language, dark, EndRule.looseEnds, EndRule.strictEnds, EndRule.lineChar,
        isLineEnd, isPlainSpace]
  intro offset
  refine ⟨(), ?_, trivial⟩
  simp only [endStatement, run_bind, here, Option.bind_some, List.singleton_append, finished]
  rfl

theorem refuses_attributes (rest : List Char) :
    (discard <| optionally do
      keyword "with" <|> (guard g.isTyped *> keyword "assert")
      discard g.objectLiteral : Parser Unit).Peeks ([';'] ++ rest) () := by
  have solid : IsSolid (';' :: rest) := isSolid_cons (by decide) (by decide)
  have next : nextWord.Peeks ([';'] ++ rest) "" := 
    peeks_nextWord_none (s := ';' :: rest) isBlank_nil solid rfl
  have refuses : (keyword "with" <|> (guard g.isTyped *> keyword "assert")).Refuses
      ([';'] ++ rest) :=
    (next.refuses_keyword (by decide)).orElse (next.refuses_keyword (by decide)).guard_bind
  exact refuses.bind.optionally.bind_peeks (peeks_pure _ _)

theorem takes_importClause (isTypeOnly : Bool) (string : IsString literal)
    (written : Written g (Written.fromText ([' '] ++ literal ++ [';'] ++ rest)) text bs) :
    (g.importClause isTypeOnly).Takes
      (text ++ ([' '] ++ "from".toList ++ ([' '] ++ literal ++ [';']))) rest fun clause =>
        clause.isTypeOnly = isTypeOnly ∧ clause.bindings = bs ∧
          clause.specifier.text = String.ofList literal := by
  unfold importClause
  have apart : EndsName ([' '] ++ literal ++ [';'] ++ rest) := endsName_space _
  have first : g.importBindings.Takes text
      ([' '] ++ "from".toList ++ ([' '] ++ literal ++ [';']) ++ rest) (· = bs) := by
    simpa [Written.fromText] using written.takes
  refine (written.not_lookingAt "'" rfl (by decide) _ _).bind ?_
  refine (written.not_lookingAt "\"" rfl (by decide) _ _).bind ?_
  refine first.bind fun bindings same => ?_
  refine Takes.bind (takes_keyword "from" isBlank_space (by decide) apart) fun _ _ => ?_
  refine (peeks_pure bindings _).bind ?_
  refine Takes.bind (takes_token isBlank_space (string.isSolid _) (string.stringLength?_append _))
    fun l given => ?_
  refine Peeks.bind (refuses_attributes rest) ?_
  refine (takes_endStatement false rest).gives fun _ _ => ?_
  exact ⟨rfl, same, given⟩

theorem takes_typeMark (typed : g.isTyped = true) (rest : List Char) :
    g.typeMark.Takes ([' '] ++ "type".toList) (' ' :: rest) (· = true) := by
  unfold typeMark
  refine takes_guard typed ?_
  refine (takes_word isBlank_space (by decide) (endsName_space rest)).bind_nil fun l text => ?_
  rw [text, String.ofList_toList]
  exact takes_guard rfl (takes_pure rfl)

theorem Written.refuses_from {tail : List Char} {α : Type} {next : Lexeme → Parser α}
    (written : Written g (fromText tail) text bs) :
    (keyword "from" >>= fun _ => token stringLength? >>= next).Refuses (text ++ fromText tail) := by
  have named {name after : List Char} (isName : IsName name) (ends : EndsName after)
      (other : (token stringLength?).Refuses after) :
      (keyword "from" >>= fun _ => token stringLength? >>= next).Refuses
        ([' '] ++ name ++ after) := by
    by_cases same : String.ofList name = "from"
    · obtain rfl : name = "from".toList := by rw [← same, String.toList_ofList]
      exact (takes_keyword "from" isBlank_space isName ends).bind_refuses fun _ _ => other.bind
    · have next := peeks_nextWord isBlank_space isName ends
      rw [← List.append_assoc] at next
      exact (next.refuses_keyword same).bind
  cases written with
  | @group c more _ kind _ =>
    have solid : IsSolid (c :: (more ++ fromText tail)) := by
      rcases kind with rfl | rfl <;> exact isSolid_cons (by decide) (by decide)
    have none : nameLength? (c :: (more ++ fromText tail)) = none := by
      rcases kind with rfl | rfl <;> rfl
    have next : nextWord.Peeks ([' '] ++ c :: more ++ fromText tail) "" :=
      peeks_nextWord_none (s := c :: (more ++ fromText tail)) isBlank_space solid none
    exact (next.refuses_keyword (by decide)).bind
  | single isName =>
    have starts : StartsName ("from".toList ++ tail) := ⟨'f', _, rfl, .inl (by decide)⟩
    exact named isName (endsName_space _)
      (refuses_token (s := "from".toList ++ tail) isBlank_space starts.isSolid starts.stringLength?)
  | @both name text _ isName _ =>
    have comma : IsSolid (',' :: (text ++ fromText tail)) := isSolid_cons (by decide) (by decide)
    have ends : EndsName (',' :: (text ++ fromText tail)) := by
      rintro _ ⟨⟩
      exact ⟨by decide, by decide⟩
    rw [List.append_assoc]
    exact named isName ends (refuses_token (s := ',' :: _) isBlank_nil comma rfl)

theorem refuses_unmarked {tail : List Char} (written : Written g (Written.fromText tail) text bs) :
    (g.importClause false).Refuses
      ([' '] ++ "type".toList ++ (text ++ Written.fromText tail)) := by
  have isType : IsName "type".toList := by decide
  have starts := isType.startsName.append (text ++ Written.fromText tail)
  have single : (lookingAt "'").Peeks _ false :=
    starts.peeks_lookingAt rfl (by decide) isBlank_space
  have double : (lookingAt "\"").Peeks _ false :=
    starts.peeks_lookingAt rfl (by decide) isBlank_space
  have finished := written.not_lookingAt "," rfl (by decide) (Written.fromText tail) []
  obtain ⟨c, more, rfl, -⟩ := written.head
  have first : g.importBindings.Takes ([' '] ++ "type".toList)
      ([' '] ++ c :: more ++ Written.fromText tail) _ :=
    Written.takes_single isType (endsName_space _) (by simpa using finished)
  unfold importClause
  rw [← List.append_assoc] at single double
  refine single.bind_refuses (double.bind_refuses ?_)
  refine first.bind_refuses fun _ _ => ?_
  exact written.refuses_from

def statementText (marked : Bool) (text literal : List Char) : List Char :=
  "import".toList ++ ((if marked then [' '] ++ "type".toList else []) ++
    (text ++ ([' '] ++ "from".toList ++ ([' '] ++ literal ++ [';']))))

theorem statementText_eq (marked : Bool) (text literal : List Char) :
    statementText marked text literal =
      "import".toList ++ ((if marked then [' '] ++ "type".toList else []) ++
        (text ++ ([' '] ++ "from".toList ++ ([' '] ++ literal ++ [';'])))) :=
  rfl

def ReadsBack (marked : Bool) (bs : List ImportBinding) (literal : List Char) (s : Statement) :
    Prop :=
  ∃ lexeme clause, s = .importFrom lexeme clause ∧ clause.isTypeOnly = marked ∧
    clause.bindings = bs ∧ clause.specifier.text = String.ofList literal

theorem endsName_statement (marked : Bool)
    (written : Written g (Written.fromText ([' '] ++ literal ++ [';'] ++ rest)) text bs)
    (s after : List Char) :
    EndsName ((if marked then [' '] ++ "type".toList else []) ++ (text ++ s) ++ after) := by
  obtain ⟨c, more, rfl, -⟩ := written.head
  cases marked <;> exact endsName_space _

theorem takes_importStatement {marked : Bool} (typed : marked = true → g.isTyped = true)
    (string : IsString literal)
    (written : Written g (Written.fromText ([' '] ++ literal ++ [';'] ++ rest)) text bs) :
    g.importStatement.Takes (statementText marked text literal) rest
      (ReadsBack marked bs literal) := by
  have clause := takes_importClause marked string written
  have ends := endsName_statement marked written
    ([' '] ++ "from".toList ++ ([' '] ++ literal ++ [';'])) rest
  have make : (do
      let clause ← g.importClause marked
      return (Statement.importFrom · clause) : Parser (Lexeme → Statement)).Takes _ rest
      fun make => ∀ l, ReadsBack marked bs literal (make l) :=
    clause.gives fun clause facts l => ⟨l, clause, rfl, facts⟩
  have solid : IsSolid (statementText marked text literal ++ rest) :=
    isSolid_cons (by decide) (by decide)
  unfold importStatement
  refine Takes.gives (Takes.located_solid solid
    (?_ : Takes _ _ _ fun make => ∀ l, ReadsBack marked bs literal (make l))) fun _ told => told.1 _
  refine (takes_keyword_solid "import" (by decide) ends).bind fun _ _ => ?_
  cases marked with
  | false => exact make.orElse
  | true =>
    have unmarked := refuses_unmarked written
    refine Refuses.orElse_takes (Refuses.bind ?_) (Takes.orElse ?_)
    · simpa [Written.fromText] using unmarked
    · obtain ⟨c, more, rfl, -⟩ := written.head
      refine Takes.bind (takes_typeMark (typed rfl) _) fun b same => ?_
      rw [same]
      exact make

theorem takes_statementRule {marked : Bool} (typed : marked = true → g.isTyped = true)
    (string : IsString literal)
    (written : Written g (Written.fromText ([' '] ++ literal ++ [';'] ++ rest)) text bs) :
    g.statementRule.Takes (statementText marked text literal) rest
      (ReadsBack marked bs literal) := by
  have isImport : IsName "import".toList := by decide
  have ends := endsName_statement marked written
    ([' '] ++ "from".toList ++ ([' '] ++ literal ++ [';'])) rest
  have next : nextWord.Peeks (statementText marked text literal ++ rest) "import" := by
    rw [statementText_eq, List.append_assoc]
    exact peeks_nextWord_solid "import" isImport ends
  refine next.bind ?_
  have none : g.ruleOf? "import" = none := rfl
  rw [none]
  exact (takes_importStatement typed string written).orElse

end Clauses

theorem nested_bound (language : Language) (bound depth : Nat) :
    (nested language bound depth).bound = bound := by
  cases depth <;> rfl

end Grammar

open Grammar

theorem readStatements?_statementText {language : Language} {source : String} {marked : Bool}
    {text literal : List Char} {bs : List ImportBinding}
    (whole : source.toList = statementText marked text literal)
    (typed : marked = true → (language == .typeScript) = true) (string : IsString literal)
    (written : ∀ g : Grammar, g.isTyped = (language == .typeScript) → source.length < g.bound →
      Written g (Written.fromText ([' '] ++ literal ++ [';'])) text bs) :
    ∃ s, readStatements? language source = some [s] ∧ ReadsBack marked bs literal s := by
  have statement : (nested language (source.length + 16) (source.length + 15)).statementRule.Takes
      (statementText marked text literal) [] (ReadsBack marked bs literal) := by
    have clause := written (nested language (source.length + 16) (source.length + 15))
      (nested_isTyped _ _ _) (by rw [nested_bound]; omega)
    exact takes_statementRule (by rwa [nested_isTyped]) string (by simpa using clause)
  have solid : IsSolid (statementText marked text literal) := isSolid_cons (by decide) (by decide)
  have other : "#!".toList.isPrefixOf (statementText marked text literal) = false := rfl
  have first : (optionally interpreterLine).Peeks (statementText marked text literal) none :=
    ((peeks_ahead isBlank_nil solid).bind_refuses
      (refuses_guard (by rw [other]; decide))).optionally
  have next : (do
      if (← ahead).isEmpty then return none
      else return some (← (nested language (source.length + 16) (source.length + 16)).statement) :
        Parser (Option Statement)).Takes (statementText marked text literal) [] fun s? =>
        ∃ s, s? = some s ∧ ReadsBack marked bs literal s := by
    refine Peeks.bind (by simpa using peeks_ahead isBlank_nil solid) ?_
    exact statement.gives fun s read => ⟨s, rfl, read⟩
  have finished : (do
      if (← ahead).isEmpty then return none
      else return some (← (nested language (source.length + 16) (source.length + 16)).statement) :
        Parser (Option Statement)).Peeks [] none :=
    (peeks_ahead isBlank_nil isSolid_nil).bind_peeks (peeks_pure _ _)
  have all : (program (nested language (source.length + 16) (source.length + 16))).Takes
      (statementText marked text literal) []
      fun statements => ∃ s, statements = [s] ∧ ReadsBack marked bs literal s := by
    refine Peeks.bind (by simpa using first) ?_
    have last := (finished.repeatedly (source.length + 14)).takes rfl
    have both := next.repeatedly_cons (t := []) last
    rw [List.append_nil] at both
    refine both.gives ?_
    rintro _ ⟨s, _, rfl, read, rfl⟩
    exact ⟨s, rfl, read⟩
  obtain ⟨_, run, s, rfl, read⟩ := all 0
  refine ⟨s, ?_, read⟩
  rw [List.append_nil, ← whole] at run
  exact congrArg (Option.map Prod.fst) run

end SchemaMigration.Source
