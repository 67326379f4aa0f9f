import Mathlib.Data.List.Nodup
import SchemaMigration.Proofs.ReadOptions
import SchemaMigration.Proofs.RereadBrackets

set_option autoImplicit false

namespace SchemaMigration

open Source

namespace Source

open Source.Parser

def readExpression? (language : Language) (source : String) : Option Expr :=
  let bound := source.length + 16
  let whole : Parser Expr := do
    let e ← (Grammar.nested language bound bound).expression false
    guard (← ahead).isEmpty
    return e
  (whole.run ⟨source.toList, 0⟩).map Prod.fst

namespace Grammar

def value (g : Grammar) (listed : Bool) : Parser Expr :=
  if listed then g.spread <|> g.expression false else g.expression false

variable {language : Language} {bound depth : Nat} {s text rest : List Char} {Told : Expr → Prop}

@[simp] theorem bound_nested (language : Language) (bound depth : Nat) :
    (nested language bound depth).bound = bound := by
  cases depth <;> rfl

theorem readsValues_nested (positive : 0 < bound) (depth : Nat) :
    (nested language bound depth).ReadsValues := by
  cases depth with
  | zero => exact ⟨fun _ => rfl, fun _ _ => refuses_failure⟩
  | succ depth =>
    refine ⟨skipsTrivia_expressionRule false, fun s ends => ?_⟩
    exact refuses_expressionRule (g := nested language bound depth) (by simpa using positive) ends

theorem skipsTrivia_value (positive : 0 < bound) (depth : Nat) (listed : Bool) :
    ((nested language bound depth).value listed).SkipsTrivia := by
  have reads : (nested language bound depth).ReadsValues := readsValues_nested positive depth
  cases listed with
  | false => exact reads.skips
  | true => exact reads.skips_item

theorem refuses_spread_of_operatorAt {g : Grammar} (solid : IsSolid s)
    (other : operatorAt s ≠ "...") : g.spread.Refuses s := by
  have next : nextOperator.Peeks s (operatorAt s) := peeks_nextOperator isBlank_nil solid
  have none : (Parser.operator "...").Refuses s :=
    next.bind_refuses (refuses_guard (by simpa using other))
  exact (none.bind.located_solid solid).bind.bind

-- Wherever it ends, the text is read as one value without operators. The grammar has room for
-- everything nested in it.
def IsValue (language : Language) (text : List Char) (Told : Expr → Prop) : Prop :=
  ∀ bound depth, text.length + 16 ≤ bound → text.length + 16 ≤ depth + 1 → ∀ rest, EndsValue rest →
    OpensValue (text ++ rest) ∧ ((nested language bound depth).primary false).Takes text rest Told

def IsOperand (language : Language) (text : List Char) (Told : Expr → Prop) : Prop :=
  ∀ bound depth, text.length + 16 ≤ bound → text.length + 16 ≤ depth + 1 → ∀ rest, EndsValue rest →
    IsSolid (text ++ rest) ∧ wordAt (text ++ rest) ≠ "yield" ∧ operatorAt (text ++ rest) ≠ "..." ∧
      ((nested language bound depth).operand false).Takes text rest Told

theorem isOperand_of_countable
    (value : ∀ bound depth, text.length + 16 ≤ bound → text.length + 16 ≤ depth + 1 → ∀ rest,
      EndsValue rest → OpensValue (text ++ rest) ∧
        ((nested language bound depth).countable false).Takes text rest Told) :
    IsOperand language text Told := by
  intro bound depth roomy deep rest ends
  obtain ⟨opens, read⟩ := value bound depth roomy deep rest ends
  refine ⟨opens.solid, fun same => ?_, fun same => ?_, ?_⟩
  next => exact opens.word (by simp [same])
  next => exact opens.operator (by simp [same])
  next => exact opens.takes_operand (by rw [bound_nested]; omega) read

theorem IsValue.isOperand (value : IsValue language text Told) : IsOperand language text Told := by
  refine isOperand_of_countable fun bound depth roomy deep rest ends => ?_
  obtain ⟨opens, read⟩ := value bound depth roomy deep rest ends
  exact ⟨opens, opens.takes_countable (by rw [bound_nested]; omega) ends read⟩

theorem IsOperand.takes_expression (value : IsOperand language text Told)
    (roomy : text.length + 16 ≤ bound) (deep : text.length + 16 ≤ depth) (ends : EndsValue rest) :
    ((nested language bound depth).expression false).Takes text rest Told := by
  obtain ⟨depth, rfl⟩ : ∃ n, depth = n + 1 := ⟨depth - 1, by omega⟩
  obtain ⟨solid, word, -, operand⟩ := value bound depth roomy deep rest ends
  exact takes_expressionRule (g := nested language bound depth) solid word
    (by rw [bound_nested]; omega) ends operand

theorem exists_of_isOperand {source : String} (value : IsOperand language source.toList Told) :
    ∃ e, readExpression? language source = some e ∧ Told e := by
  have long : source.toList.length = source.length := String.length_toList
  have read : ((nested language (source.length + 16) (source.length + 16)).expression false).Takes
      source.toList [] Told := value.takes_expression (by omega) (by omega) (.inl rfl)
  obtain ⟨e, run, told⟩ := read 0
  refine ⟨e, ?_, told⟩
  rw [List.append_nil] at run
  simp only [readExpression?, run_bind, run, Option.bind_some]
  rfl

-- Wherever an item of a list ends, the text is read as one value.
def IsEntry (language : Language) (close : Char) (listed : Bool) (text : List Char)
    (Told : Expr → Prop) : Prop :=
  ∀ bound depth, text.length + 16 ≤ bound → text.length + 16 ≤ depth →
    ∀ rest, EndsEntry close rest → ((nested language bound depth).value listed).Takes text rest Told

variable {close : Char}

theorem IsOperand.isEntry (value : IsOperand language text Told) (bracket : close ∈ [']', ')'])
    (listed : Bool) : IsEntry language close listed text Told := by
  intro bound depth roomy deep rest ends
  have stops := ends.endsValue bracket
  have read := value.takes_expression roomy deep stops
  cases listed with
  | false => exact read
  | true =>
    obtain ⟨solid, -, plain, -⟩ := value bound depth roomy (by omega) rest stops
    exact (refuses_spread_of_operatorAt solid plain).orElse_takes read

theorem IsEntry.mono {listed : Bool} {Other : Expr → Prop}
    (entry : IsEntry language close listed text Told) (weaker : ∀ e, Told e → Other e) :
    IsEntry language close listed text Other :=
  fun bound depth roomy deep rest ends => (entry bound depth roomy deep rest ends).mono weaker

theorem IsValue.mono {Other : Expr → Prop} (value : IsValue language text Told)
    (weaker : ∀ e, Told e → Other e) : IsValue language text Other := by
  intro bound depth roomy deep rest ends
  obtain ⟨opens, read⟩ := value bound depth roomy deep rest ends
  exact ⟨opens, read.mono weaker⟩

theorem IsEntry.blank {listed : Bool} {blank : List Char}
    (entry : IsEntry language close listed text Told) (blanks : IsBlank blank) :
    IsEntry language close listed (blank ++ text) Told := by
  intro bound depth roomy deep rest ends
  rw [List.length_append] at roomy deep
  have read := entry bound depth (by omega) (by omega) rest ends
  exact (skipsTrivia_value (by omega) depth listed).takes blanks read

section Brackets

variable {γ : Type} {item : γ → List Char} {Given : γ → Expr → Prop} {xs : List γ}
  {t blank : List Char}

theorem isValue_array (list : ∀ rest, ItemList item (EndsEntry ']') (blank ++ ']' :: rest) xs t)
    (blanks : IsBlank blank) (reads : ∀ x ∈ xs, IsEntry language ']' true (item x) (Given x)) :
    IsValue language ('[' :: (t ++ (blank ++ [']']))) fun e =>
      ∃ l items, e = .array l items ∧ List.Forall₂ Given xs items := by
  intro bound depth roomy deep rest ends
  simp only [List.length_cons, List.length_append] at roomy deep
  refine ⟨opensValue_mark (by decide) _, takes_primary_array (takes_arrayLiteral (list rest)
    (readsValues_nested (by omega) depth) (fun x member after stop => ?_) blanks ?_)⟩
  · have shorter := (list rest).length_le x member
    exact reads x member bound depth (by omega) (by omega) after stop
  · rw [bound_nested]
    omega

theorem isValue_object {name : γ → String}
    (list : ∀ rest, ItemList item EndsPair (blank ++ '\x7d' :: rest) xs t) (blanks : IsBlank blank)
    (reads : ∀ x ∈ xs, ∃ blank key value, item x = blank ++ (key ++ ':' :: value) ∧ IsBlank blank ∧
      IsKey key (name x) ∧ IsEntry language ']' false value (Given x)) :
    IsValue language ('\x7b' :: (t ++ (blank ++ ['\x7d']))) fun e =>
      ∃ l members, e = .object l members ∧
        List.Forall₂ (fun x m => IsPair (name x) (Given x) m) xs members := by
  intro bound depth roomy deep rest ends
  simp only [List.length_cons, List.length_append] at roomy deep
  refine ⟨opensValue_mark (by decide) _, takes_primary_object (takes_objectLiteral (list rest)
    (fun x member => ?_) blanks ?_)⟩
  · obtain ⟨front, key, value, same, blanks, isKey, entry⟩ := reads x member
    refine ⟨front, key, value, same, blanks, isKey, fun more => ?_⟩
    have shorter := (list rest).length_le x member
    rw [same, List.length_append, List.length_append, List.length_cons] at shorter
    exact entry bound depth (by omega) (by omega) _ ⟨more, .inl rfl⟩
  · rw [bound_nested]
    omega

end Brackets

section Tokens

theorem isValue_number (number : IsNumber text) :
    IsValue language text fun e => ∃ l, e = .number l ∧ l.text = String.ofList text :=
  fun _ _ _ _ rest ends => ⟨opensValue_number number rest, takes_primary_number number ends⟩

theorem isValue_string (string : IsString text) :
    IsValue language text fun e => ∃ l, e = .string l ∧ l.text = String.ofList text :=
  fun _ _ _ _ rest _ => ⟨opensValue_string string rest, takes_primary_string string rest⟩

theorem isValue_null : IsValue language "null".toList fun e => ∃ l, e = .null l :=
  fun _ _ _ _ _ ends =>
    ⟨opensValue_name (by decide) ends.endsName (by decide), takes_null ends⟩

theorem isValue_boolean (value : Bool) :
    IsValue language (if value then "true" else "false").toList
      fun e => ∃ l, e = .boolean l value := by
  intro bound depth _ _ rest ends
  refine ⟨opensValue_name ?_ ends.endsName ?_, takes_boolean value ends⟩
  · cases value <;> decide
  · cases value <;> decide

end Tokens

end Grammar

end Source

section Texts

theorem isBlank_indent (depth : Nat) : IsBlank (indent depth).toList := by
  intro c member
  rw [indent, String.toList_join] at member
  obtain ⟨pair, copied, held⟩ := List.mem_flatMap.mp member
  rw [(List.mem_replicate.mp copied).2] at held
  have space : c = ' ' := by simpa using held
  rw [space]
  decide

def lineStart (depth : Nat) : List Char :=
  '\n' :: (indent depth).toList

theorem isBlank_lineStart (depth : Nat) : IsBlank (lineStart depth) :=
  List.forall_mem_cons.mpr ⟨by decide, isBlank_indent depth⟩

theorem toList_renderLines (opening closing : String) (depth : Nat) (lines : List String) :
    (renderLines opening closing depth lines).toList =
      opening.toList ++
        ((lines.flatMap fun line => lineStart (depth + 1) ++ line.toList ++ [',']) ++
          (lineStart depth ++ closing.toList)) := by
  -- The line break at the end of each line is the one before the next.
  have shifted : '\n' :: (lines.map fun line => indent (depth + 1) ++ line ++ ",\n").flatMap
        String.toList =
      (lines.flatMap fun line => lineStart (depth + 1) ++ line.toList ++ [',']) ++ ['\n'] := by
    induction lines with
    | nil => rfl
    | cons line rest ih =>
      rw [List.flatMap_cons, List.append_assoc, ← ih]
      simp [lineStart]
  have joined := congrArg (· ++ ((indent depth).toList ++ closing.toList)) shifted
  simp only [List.append_assoc, List.singleton_append] at joined
  simp only [renderLines, String.toList_append, String.toList_join, List.append_assoc]
  change _ = opening.toList ++ (_ ++ '\n' :: ((indent depth).toList ++ closing.toList))
  rw [← joined]
  rfl

theorem renderItems_eq (items : List Literal) (depth : Nat) :
    Literal.renderItems items depth = items.map (·.render depth) := by
  induction items with
  | nil => rfl
  | cons item rest ih => rw [Literal.renderItems, ih, List.map_cons]

theorem renderEntries_eq (entries : List (String × Literal)) (depth : Nat) :
    Literal.renderEntries entries depth =
      entries.map fun entry => renderKey entry.1 ++ ": " ++ entry.2.render depth := by
  induction entries with
  | nil => rfl
  | cons entry rest ih => rw [Literal.renderEntries, ih, List.map_cons]

end Texts

section Contents

def requoted (contents : String) : String :=
  Text.unquote (Text.quote contents)

-- Two contents of strings have the same value. They are the same text, unless both kinds of quotes
-- stand in the first.
structure SameContents (a b : String) : Prop where
  value : stringValue b.toList = stringValue a.toList
  same : '\'' ∉ a.toList ∨ '"' ∉ a.toList → b = a

variable {a : String}

theorem requoted_eq (apart : '\'' ∉ a.toList ∨ '"' ∉ a.toList) : requoted a = a := by
  have quoted : ∃ q, Text.isQuote q = true ∧ Text.quoteChars a.toList = q :: (a.toList ++ [q]) := by
    by_cases single : '\'' ∈ a.toList
    · have double : '"' ∉ a.toList := apart.resolve_left fun absent => absent single
      exact ⟨'"', by decide, by simp [Text.quoteChars, single, double]⟩
    · exact ⟨'\'', by decide, by simp [Text.quoteChars, single]⟩
  obtain ⟨q, quote, text⟩ := quoted
  rw [requoted, Text.quote, Text.unquote, String.toList_ofList, text,
    Text.unquoteChars_quoted q _ quote, String.ofList_toList]

theorem sameContents_requoted {stops : List Char} (held : Contents stops a.toList) :
    SameContents a (requoted a) := by
  obtain ⟨q, -, -, -, value⟩ := held.exists_quoteChars
  refine ⟨?_, requoted_eq⟩
  rwa [requoted, Text.quote, Text.unquote, String.toList_ofList, String.toList_ofList]

theorem isString_quote (held : Contents ['\n', '\r'] a.toList) :
    IsString (Text.quote a).toList := by
  obtain ⟨q, quote, text, contents, -⟩ := held.exists_quoteChars
  rw [Text.quote, String.toList_ofList, text]
  exact contents.isString quote

theorem isKey_renderKey (held : Contents ['\n', '\r'] a.toList) :
    Grammar.IsKey (renderKey a).toList (requoted a) := by
  rw [renderKey]
  split
  next identifier =>
    obtain ⟨c, rest, chars, -, named⟩ := exists_of_isIdentifier identifier
    have plain : '\'' ∉ a.toList := fun member =>
      absurd (named _ (chars ▸ member)) (by decide)
    have key := Grammar.IsKey.name (isName_of_isIdentifier identifier)
    rw [String.ofList_toList] at key
    rwa [requoted_eq (.inl plain)]
  next =>
    have key := Grammar.IsKey.string (isString_quote held)
    rwa [String.ofList_toList] at key

end Contents

namespace FieldOptions

theorem setEntry_of_not_mem {key : String} {entries : List (String × Literal)}
    (absent : key ∉ entries.map Prod.fst) (value : Literal) :
    setEntry key value entries = entries ++ [(key, value)] := by
  induction entries with
  | nil => rfl
  | cons first rest ih =>
    obtain ⟨k, v⟩ := first
    obtain ⟨differ, later⟩ := not_or.mp (mt List.mem_cons.mpr absent)
    have other : (k == key) = false := beq_eq_false_iff_ne.mpr fun same => differ same.symm
    simp [setEntry, other, ih later]

theorem merge_of_nodup {o : FieldOptions} {entries : List (String × Literal)}
    (distinct : (o.keys ++ entries.map Prod.fst).Nodup) :
    (o.merge ⟨entries⟩).entries = o.entries ++ entries := by
  unfold merge
  induction entries generalizing o with
  | nil => simp
  | cons first rest ih =>
    have absent : first.1 ∉ o.keys := fun member =>
      (List.nodup_append.mp distinct).2.2 _ member _ (by simp) rfl
    have grown : (o.insert first.1 first.2).entries = o.entries ++ [first] :=
      setEntry_of_not_mem absent first.2
    have later := @ih (o.insert first.1 first.2) (by simpa [keys, grown] using distinct)
    rw [grown, List.append_assoc] at later
    exact later

theorem ofList_of_nodup {entries : List (String × Literal)}
    (distinct : (entries.map Prod.fst).Nodup) : (ofList entries).entries = entries :=
  merge_of_nodup (o := .empty) distinct

end FieldOptions

namespace Literal

inductive SameAs : Literal → Literal → Prop where
  | null : SameAs .null .null
  | bool (value : Bool) : SameAs (.bool value) (.bool value)
  | number (text : String) : SameAs (.number text) (.number text)
  | string {a b : String} (contents : SameContents a b) : SameAs (.string a) (.string b)
  | raw (text : String) : SameAs (.raw text) (.raw text)
  | array {as bs : List Literal} (items : List.Forall₂ SameAs as bs) :
      SameAs (.array as) (.array bs)
  | object {as bs : List (String × Literal)}
      (keys : List.Forall₂ SameContents (as.map Prod.fst) (bs.map Prod.fst))
      (values : List.Forall₂ SameAs (as.map Prod.snd) (bs.map Prod.snd)) :
      SameAs (.object as) (.object bs)

-- The text stands by itself: it is read as one value wherever an item of a list ends, and kept as
-- it is.
def Stands (language : Language) (close : Char) (listed : Bool) (text : String) : Prop :=
  Grammar.IsEntry language close listed text.toList (ofExpr · = .raw text)

-- A literal that can be written in another place. No string holds a bare line break, quotes make no
-- two keys equal, and what was kept as it is written stands by itself. The flag says that the
-- literal is an item of an array.
inductive Portable (language : Language) : Bool → Literal → Prop where
  | null {listed : Bool} : Portable language listed .null
  | bool {listed : Bool} (value : Bool) : Portable language listed (.bool value)
  | number {listed : Bool} (text : String) : Portable language listed (.number text)
  | string {listed : Bool} {contents : String}
      (unbroken : ∀ c ∈ ['\n', '\r'], [c] ∉ pieces contents.toList) :
      Portable language listed (.string contents)
  | raw {listed : Bool} {text : String} (stands : Stands language ']' listed text) :
      Portable language listed (.raw text)
  | array {listed : Bool} {items : List Literal} (each : ∀ l ∈ items, Portable language true l) :
      Portable language listed (.array items)
  | object {listed : Bool} {entries : List (String × Literal)}
      (keys : ∀ a ∈ entries, ∀ b ∈ entries, requoted a.1 = requoted b.1 → a.1 = b.1)
      (values : ∀ entry ∈ entries, Portable language false entry.2) :
      Portable language listed (.object entries)

section Decoded

open Source.Grammar (IsPair)

theorem sameAs_array {γ : Type} {literal : γ → Literal} {xs : List γ} {items : List Expr}
    (each : List.Forall₂ (fun x e => (literal x).SameAs (ofExpr e)) xs items) (l : Lexeme) :
    (array (xs.map literal)).SameAs (ofExpr (.array l items)) := by
  rw [ofExpr, ofExprs_eq]
  refine .array ?_
  rwa [List.forall₂_map_left_iff, List.forall₂_map_right_iff]

theorem exists_entriesOf? {entries : List (String × Literal)} {members : List ObjectMember}
    (each : List.Forall₂ (fun entry m =>
      IsPair (requoted entry.1) (fun e => entry.2.SameAs (ofExpr e)) m) entries members) :
    ∃ found, entriesOf? members = some found ∧
      found.map Prod.fst = entries.map (fun entry => requoted entry.1) ∧
      List.Forall₂ SameAs (entries.map Prod.snd) (found.map Prod.snd) := by
  induction each with
  | nil => exact ⟨[], by rw [entriesOf?], by simp, .nil⟩
  | @cons entry m entries members pair _ ih =>
    obtain ⟨place, key, value, rfl, named, same⟩ := pair
    obtain ⟨found, others, keys, values⟩ := ih
    refine ⟨(requoted entry.1, ofExpr value) :: found, ?_, ?_, .cons same values⟩
    · rw [entriesOf?, named, others]
    · rw [List.map_cons, List.map_cons, keys]

theorem sameAs_object {entries : List (String × Literal)} {members : List ObjectMember}
    (held : ∀ entry ∈ entries, Contents ['\n', '\r'] entry.1.toList)
    (distinct : (entries.map fun entry => requoted entry.1).Nodup)
    (each : List.Forall₂ (fun entry m =>
      IsPair (requoted entry.1) (fun e => entry.2.SameAs (ofExpr e)) m) entries members)
    (l : Lexeme) : (object entries).SameAs (ofExpr (.object l members)) := by
  obtain ⟨found, entriesOf, keys, values⟩ := exists_entriesOf? each
  rw [← keys] at distinct
  rw [ofExpr, entriesOf]
  dsimp only
  rw [FieldOptions.ofList_of_nodup distinct]
  refine .object ?_ values
  rw [keys, List.forall₂_map_left_iff, List.forall₂_map_right_iff, List.forall₂_same]
  exact fun entry member => sameContents_requoted (held entry member)

end Decoded

section Written

open Source.Grammar

variable {language : Language}

abbrev Rereads (language : Language) (l : Literal) (depth : Nat) : Prop :=
  IsValue language (l.render depth).toList fun e => l.SameAs (ofExpr e)

theorem Portable.isEntry {l : Literal} {listed : Bool} {depth : Nat}
    (portable : l.Portable language listed)
    (value : (∀ text, l ≠ .raw text) → Rereads language l depth) :
    IsEntry language ']' listed (l.render depth).toList fun e => l.SameAs (ofExpr e) := by
  cases portable with
  | @raw _ text stands =>
    rw [render]
    exact stands.mono fun e same => same ▸ .raw text
  | null | bool | number | string | array | object =>
    exact (value nofun).isOperand.isEntry (by decide) listed

section Arrays

variable {items : List Literal} {depth : Nat}

theorem rereads_lines (nested : items.any isNested = true) (filled : items ≠ [])
    (each : ∀ l ∈ items, IsEntry language ']' true (l.render (depth + 1)).toList
      fun e => l.SameAs (ofExpr e)) : Rereads language (.array items) depth := by
  have text : ((array items).render depth).toList = '[' ::
      ((items.flatMap fun l => lineStart (depth + 1) ++ (l.render (depth + 1)).toList ++ [',']) ++
        (lineStart depth ++ [']'])) := by
    rw [render, if_neg (by simpa using filled), if_pos nested, renderItems_eq, toList_renderLines,
      List.flatMap_map]
    rfl
  rw [Rereads, text]
  have reads : ∀ l ∈ items, IsEntry language ']' true
      (lineStart (depth + 1) ++ (l.render (depth + 1)).toList) fun e => l.SameAs (ofExpr e) :=
    fun l member => (each l member).blank (isBlank_lineStart (depth + 1))
  refine (isValue_array (fun rest => itemList_lines (fun more => ⟨more, .inl rfl⟩) items)
    (isBlank_lineStart depth) reads).mono ?_
  rintro _ ⟨l, exprs, rfl, same⟩
  have whole : (array (items.map id)).SameAs (ofExpr (.array l exprs)) := sameAs_array same l
  rwa [List.map_id] at whole

theorem rereads_inline (flat : ¬items.any isNested = true) (filled : items ≠ [])
    (each : ∀ l ∈ items, IsEntry language ']' true (l.render depth).toList
      fun e => l.SameAs (ofExpr e)) : Rereads language (.array items) depth := by
  obtain ⟨first, others, rfl⟩ := List.exists_cons_of_ne_nil filled
  -- Every item but the first has a blank in front.
  let spaced : List (List Char × Literal) := ([], first) :: others.map ([' '], ·)
  let text (x : List Char × Literal) : List Char := x.1 ++ (x.2.render depth).toList
  have written : ((array (first :: others)).render depth).toList =
      '[' :: ([','].intercalate (spaced.map text) ++ ([] ++ [']'])) := by
    rw [render, if_neg (by simp), if_neg flat, renderItems_eq]
    simp [String.toList_append, String.toList_intercalate, intercalate_cons_eq, List.flatMap_map,
      spaced, text, Function.comp_def]
  have literals : spaced.map Prod.snd = first :: others := by
    simp [spaced, Function.comp_def]
  have reads : ∀ x ∈ spaced, IsEntry language ']' true (text x) fun e => x.2.SameAs (ofExpr e) := by
    intro x member
    have blanks : IsBlank x.1 := by
      rcases List.mem_cons.mp member with rfl | later
      · exact isBlank_nil
      · obtain ⟨l, -, rfl⟩ := List.mem_map.mp later
        exact isBlank_space
    exact (each x.2 (literals ▸ List.mem_map_of_mem member)).blank blanks
  rw [Rereads, written]
  refine (isValue_array (fun rest => itemList_inline (fun more => ⟨more, .inl rfl⟩)
    ⟨rest, .inr rfl⟩ spaced) isBlank_nil reads).mono ?_
  rintro _ ⟨l, exprs, rfl, same⟩
  rw [← literals]
  exact sameAs_array same l

theorem rereads_array (each : ∀ l ∈ items, ∀ depth,
      IsEntry language ']' true (l.render depth).toList fun e => l.SameAs (ofExpr e)) :
    Rereads language (.array items) depth := by
  by_cases empty : items = []
  · subst empty
    have written : ((array []).render depth).toList = '[' :: ([] ++ ([] ++ [']'])) := by
      simp [render]
    have list (rest : List Char) : ItemList id (EndsEntry ']') ([] ++ ']' :: rest) [] [] := .nil
    have reads : ∀ x ∈ [], IsEntry language ']' true (id x) fun _ => True := nofun
    rw [Rereads, written]
    refine (isValue_array list isBlank_nil reads).mono ?_
    rintro _ ⟨l, _, rfl, ⟨⟩⟩
    exact .array .nil
  · by_cases nested : items.any isNested = true
    · exact rereads_lines nested empty fun l member => each l member (depth + 1)
    · exact rereads_inline nested empty fun l member => each l member depth

end Arrays

theorem rereads_object {entries : List (String × Literal)} {depth : Nat}
    (held : ∀ entry ∈ entries, Contents ['\n', '\r'] entry.1.toList)
    (distinct : (entries.map fun entry => requoted entry.1).Nodup)
    (each : ∀ entry ∈ entries, IsEntry language ']' false (entry.2.render (depth + 1)).toList
      fun e => entry.2.SameAs (ofExpr e)) : Rereads language (.object entries) depth := by
  let text (entry : String × Literal) : List Char := lineStart (depth + 1) ++
    ((renderKey entry.1).toList ++ ':' :: ' ' :: (entry.2.render (depth + 1)).toList)
  have reads : ∀ entry ∈ entries, ∃ blank key value, text entry = blank ++ (key ++ ':' :: value) ∧
      IsBlank blank ∧ IsKey key (requoted entry.1) ∧
        IsEntry language ']' false value fun e => entry.2.SameAs (ofExpr e) := fun entry member =>
    ⟨_, _, _, rfl, isBlank_lineStart (depth + 1), isKey_renderKey (held entry member),
      (each entry member).blank isBlank_space⟩
  have lines (blank : List Char) (rest : List Char) :
      ItemList text EndsPair (blank ++ '\x7d' :: rest) entries
        (entries.flatMap fun entry => text entry ++ [',']) :=
    itemList_lines (fun more => ⟨more, rfl⟩) entries
  have same {blank : List Char} (blanks : IsBlank blank) : IsValue language
      ('\x7b' :: ((entries.flatMap fun entry => text entry ++ [',']) ++ (blank ++ ['\x7d'])))
        fun e => (object entries).SameAs (ofExpr e) := by
    refine (isValue_object (lines blank) blanks reads).mono ?_
    rintro _ ⟨l, members, rfl, pairs⟩
    exact sameAs_object held distinct pairs l
  cases entries with
  | nil =>
    have written : ((object []).render depth).toList = '\x7b' :: ([] ++ ([] ++ ['\x7d'])) := by
      simp [render]
    rw [Rereads, written]
    exact same isBlank_nil
  | cons first others =>
    have written : ((object (first :: others)).render depth).toList =
        '\x7b' :: (((first :: others).flatMap fun entry => text entry ++ [',']) ++
          (lineStart depth ++ ['\x7d'])) := by
      rw [render, if_neg (by simp), renderEntries_eq, toList_renderLines, List.flatMap_map]
      simp [text]
    rw [Rereads, written]
    exact same (isBlank_lineStart depth)

theorem Lexed.rereads {l : Literal} (lexed : l.Lexed) {listed : Bool}
    (portable : l.Portable language listed) (depth : Nat) (decoded : ∀ text, l ≠ .raw text) :
    Rereads language l depth := by
  induction lexed generalizing listed depth with
  | null =>
    refine isValue_null.mono ?_
    rintro _ ⟨l, rfl⟩
    exact .null
  | bool value =>
    refine (isValue_boolean value).mono ?_
    rintro _ ⟨l, rfl⟩
    exact .bool value
  | @number text number =>
    refine (isValue_number number).mono ?_
    rintro _ ⟨l, rfl, same⟩
    rw [ofExpr, same, String.ofList_toList]
    exact .number text
  | @string contents held =>
    cases portable with
    | string unbroken =>
    refine (isValue_string (isString_quote (held.of_pieces unbroken))).mono ?_
    rintro _ ⟨l, rfl, same⟩
    rw [ofExpr, same, String.ofList_toList]
    exact .string (sameContents_requoted held)
  | raw text => exact absurd rfl (decoded text)
  | @array items each ih =>
    cases portable with
    | array portable =>
    refine rereads_array fun l member depth => ?_
    exact (portable l member).isEntry (ih l member (portable l member) depth)
  | @object entries distinct held _ ih =>
    cases portable with
    | object keys portable =>
    refine rereads_object held ?_ fun entry member => ?_
    · have unquoted : ∀ a ∈ entries.map Prod.fst, ∀ b ∈ entries.map Prod.fst,
          requoted a = requoted b → a = b := by
        intro a first b second same
        obtain ⟨entry, member, rfl⟩ := List.mem_map.mp first
        obtain ⟨other, member', rfl⟩ := List.mem_map.mp second
        exact keys entry member other member' same
      simpa [List.map_map, Function.comp_def] using List.Nodup.map_on unquoted distinct
    · exact (portable entry member).isEntry (ih entry member (portable entry member) (depth + 1))

end Written

end Literal

end SchemaMigration
