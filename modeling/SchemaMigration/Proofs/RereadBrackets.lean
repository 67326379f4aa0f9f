import SchemaMigration.Proofs.RereadValues

set_option autoImplicit false

namespace SchemaMigration.Source

open Source.Parser

namespace Grammar

variable {g : Grammar} {rest : List Char}

section Lists

variable {α γ : Type} {step : Parser (Option (Option α))} {text : γ → List Char}
  {Ends : List Char → Prop} {Read : γ → α → Prop} {stop blank : List Char}

-- Items with commas between or after them, before the end of the list.
inductive ItemList (text : γ → List Char) (Ends : List Char → Prop) (stop : List Char) :
    List γ → List Char → Prop where
  | nil : ItemList text Ends stop [] []
  | comma {xs : List γ} {t : List Char} (later : ItemList text Ends stop xs t) :
      ItemList text Ends stop xs (',' :: t)
  | item {x : γ} {xs : List γ} {t : List Char} (ends : Ends (t ++ stop))
      (later : ItemList text Ends stop xs t) : ItemList text Ends stop (x :: xs) (text x ++ t)

theorem ItemList.takes {xs : List γ} {t rest : List Char}
    (list : ItemList text Ends (blank ++ rest) xs t)
    (comma : ∀ more, step.Takes [','] more (· = some none))
    (item : ∀ x ∈ xs, ∀ after, Ends after →
      step.Takes (text x) after fun a? => ∃ a, a? = some (some a) ∧ Read x a)
    (filled : ∀ x ∈ xs, text x ≠ []) (done : step.Takes blank rest (· = none)) {bound : Nat}
    (bounded : t.length < bound) :
    (repeatedly bound step).Takes (t ++ blank) rest fun as =>
      List.Forall₂ Read xs (as.filterMap id) := by
  induction list generalizing bound with
  | nil =>
    obtain ⟨bound, rfl⟩ : ∃ n, bound = n + 1 := ⟨bound - 1, by omega⟩
    rw [repeatedly]
    refine done.bind_nil ?_
    rintro _ rfl
    exact takes_pure .nil
  | @comma xs t later ih =>
    rw [List.length_cons] at bounded
    obtain ⟨bound, rfl⟩ : ∃ n, bound = n + 1 := ⟨bound - 1, by omega⟩
    have first : step.Takes [','] (t ++ blank ++ rest) fun a? => ∃ a, a? = some a ∧ a = none :=
      (comma _).mono fun a? read => ⟨none, read, rfl⟩
    have further := ih item filled (show t.length < bound by omega)
    refine (first.repeatedly_cons further).mono ?_
    rintro _ ⟨_, more, rfl, rfl, read⟩
    exact read
  | @item x xs t ends later ih =>
    have nonempty := List.length_pos_iff.mpr (filled x List.mem_cons_self)
    rw [List.length_append] at bounded
    obtain ⟨bound, rfl⟩ : ∃ n, bound = n + 1 := ⟨bound - 1, by omega⟩
    rw [← List.append_assoc] at ends
    have first : step.Takes (text x) (t ++ blank ++ rest)
        fun a? => ∃ a, a? = some a ∧ ∃ b, a = some b ∧ Read x b := by
      refine (item x List.mem_cons_self _ ends).mono ?_
      rintro _ ⟨b, same, read⟩
      exact ⟨some b, same, b, rfl, read⟩
    have further := ih (fun y member => item y (List.mem_cons_of_mem x member))
      (fun y member => filled y (List.mem_cons_of_mem x member)) (show t.length < bound by omega)
    rw [List.append_assoc]
    refine (first.repeatedly_cons further).mono ?_
    rintro _ ⟨_, more, rfl, ⟨a, rfl, read⟩, later⟩
    exact .cons read later

theorem ItemList.length_le {xs : List γ} {t : List Char} (list : ItemList text Ends stop xs t) :
    ∀ x ∈ xs, (text x).length ≤ t.length := by
  induction list with
  | nil => exact nofun
  | comma later ih =>
    intro x member
    exact Nat.le_succ_of_le (ih x member)
  | item ends later ih =>
    intro x member
    rw [List.length_append]
    rcases List.mem_cons.mp member with rfl | further
    · omega
    · have shorter := ih x further
      omega

theorem itemList_lines (comma : ∀ more, Ends (',' :: more)) (xs : List γ) :
    ItemList text Ends stop xs (xs.flatMap fun x => text x ++ [',']) := by
  induction xs with
  | nil => exact .nil
  | cons x xs ih =>
    rw [List.flatMap_cons, List.append_assoc]
    exact .item (comma _) (.comma ih)

theorem itemList_inline (comma : ∀ more, Ends (',' :: more)) (closes : Ends stop) (xs : List γ) :
    ItemList text Ends stop xs ([','].intercalate (xs.map text)) := by
  match xs with
  | [] => exact .nil
  | [x] =>
    have last : ItemList text Ends stop [x] (text x ++ []) := .item closes .nil
    simpa using last
  | x :: y :: ys =>
    rw [List.map_cons, List.map_cons, List.intercalate_cons_cons, ← List.map_cons,
      List.append_assoc]
    exact .item (comma _) (.comma (itemList_inline comma closes (y :: ys)))

def looseStep (close : String) (item : Parser α) : Parser (Option (Option α)) := do
  if ← lookingAt close then return none
  else if ← lookingAt "," then
    symbol ","
    return some none
  else
    let value ← item
    guard ((← lookingAt ",") || (← lookingAt close))
    return some (some value)

theorem separatedLoosely_eq (close : String) (item : Parser α) : g.separatedLoosely close item = do
    let items ← repeatedly g.bound (looseStep close item)
    symbol close
    return items.filterMap id :=
  rfl

structure Closes (closing : String) (close : Char) : Prop where
  single : closing.toList = [close]
  bracket : close ∈ [']', ')']

variable {closing : String} {close : Char}

theorem closes_array : Closes "]" ']' := ⟨rfl, by decide⟩

theorem closes_arguments : Closes ")" ')' := ⟨rfl, by decide⟩

theorem Closes.endsValue (closes : Closes closing close) (more : List Char) :
    EndsValue (close :: more) :=
  EndsEntry.endsValue ⟨more, .inr rfl⟩ closes.bracket

theorem Closes.ne_comma (closes : Closes closing close) : close ≠ ',' := by
  rintro rfl
  exact absurd closes.bracket (by decide)

theorem Closes.peeks_endsEntry (closes : Closes closing close) {after : List Char}
    (ends : EndsEntry close after) : ∃ comma closed, (lookingAt ",").Peeks after comma ∧
      (lookingAt closing).Peeks after closed ∧ (comma || closed) = true := by
  have solid : IsSolid after := (ends.endsValue closes.bracket).isSolid
  refine ⟨_, _, peeks_lookingAt "," isBlank_nil solid,
    peeks_lookingAt closing isBlank_nil solid, ?_⟩
  rw [closes.single]
  obtain ⟨more, rfl | rfl⟩ := ends <;> simp

section Steps

variable {item : Parser α} {s after : List Char} {Given : α → Prop}

theorem Closes.takes_looseStep_comma (closes : Closes closing close) (item : Parser α)
    (more : List Char) : (looseStep closing item).Takes [','] more (· = some none) := by
  have solid : IsSolid ([','] ++ more) := isSolid_cons (by decide) (by decide)
  have comma : (lookingAt ",").Peeks ([','] ++ more) true := peeks_lookingAt "," isBlank_nil solid
  have closed : (lookingAt closing).Peeks ([','] ++ more) false :=
    peeks_lookingAt_other closes.single closes.ne_comma isBlank_nil solid
  refine closed.bind (comma.bind ?_)
  exact Takes.gives (takes_symbol "," isBlank_nil solid) fun _ _ => rfl

theorem Closes.takes_looseStep_item (closes : Closes closing close) (skips : item.SkipsTrivia)
    (refuses : ∀ t, EndsValue t → item.Refuses t) (ends : EndsEntry close after)
    (read : item.Takes s after Given) :
    (looseStep closing item).Takes s after fun a? => ∃ a, a? = some (some a) ∧ Given a := by
  have closed : (lookingAt closing).Peeks (s ++ after) false :=
    skips.not_lookingAt refuses read closes.single closes.endsValue
  have comma : (lookingAt ",").Peeks (s ++ after) false :=
    skips.not_lookingAt refuses read rfl fun more => .inr (.inl ⟨more, .inl rfl⟩)
  obtain ⟨found, found', comma', closed', either⟩ := closes.peeks_endsEntry ends
  refine closed.bind (comma.bind (read.bind_nil fun a given => ?_))
  refine comma'.bind (t := []) (closed'.bind (t := []) (takes_guard either ?_))
  exact takes_pure ⟨a, rfl, given⟩

end Steps

-- An expression looks past white space and comments, and none starts where a value ends.
structure ReadsValues (g : Grammar) : Prop where
  skips : (g.expression false).SkipsTrivia
  refuses : ∀ s, EndsValue s → (g.expression false).Refuses s

theorem ReadsValues.skips_item (reads : g.ReadsValues) :
    (g.spread <|> g.expression false).SkipsTrivia :=
  skipsTrivia_spread.orElse reads.skips

theorem ReadsValues.refuses_item (reads : g.ReadsValues) (s : List Char) (ends : EndsValue s) :
    (g.spread <|> g.expression false).Refuses s :=
  (refuses_spread ends).orElse (reads.refuses s ends)

theorem Closes.takes_separatedLoosely (closes : Closes closing close) {item : γ → List Char}
    {Given : γ → Expr → Prop} {xs : List γ} {t blank rest : List Char}
    (list : ItemList item (EndsEntry close) (blank ++ close :: rest) xs t) (values : g.ReadsValues)
    (reads : ∀ x ∈ xs, ∀ after, EndsEntry close after →
      (g.spread <|> g.expression false).Takes (item x) after (Given x))
    (blanks : IsBlank blank) (bounded : t.length < g.bound) :
    (g.separatedLoosely closing (g.spread <|> g.expression false)).Takes
      (t ++ (blank ++ [close])) rest (List.Forall₂ Given xs) := by
  have solid : IsSolid (close :: rest) := (closes.endsValue rest).isSolid
  have closed : (lookingAt closing).Peeks (blank ++ close :: rest) true := by
    have looking := peeks_lookingAt closing blanks solid
    rwa [closes.single, show [close].isPrefixOf (close :: rest) = true by simp] at looking
  have done : (looseStep closing (g.spread <|> g.expression false)).Peeks (blank ++ close :: rest)
      none := closed.bind_peeks (peeks_pure _ _)
  have filled : ∀ x ∈ xs, item x ≠ [] := by
    intro x member empty
    obtain ⟨_, read, -⟩ := reads x member _ ⟨rest, .inr rfl⟩ 0
    rw [empty, List.nil_append, values.refuses_item _ (closes.endsValue rest)] at read
    cases read
  have front : ItemList item (EndsEntry close) ([] ++ (blank ++ close :: rest)) xs t := list
  have steps := front.takes (closes.takes_looseStep_comma _)
    (fun x member after ends => closes.takes_looseStep_item values.skips_item values.refuses_item
      ends (reads x member after ends))
    filled (done.takes rfl) bounded
  have split : blank ++ close :: rest = blank ++ [close] ++ rest := by simp
  have last := takes_symbol closing blanks (by rw [closes.single]; exact solid)
  rw [List.append_nil, split] at steps
  rw [closes.single] at last
  rw [separatedLoosely_eq]
  exact steps.bind fun as read => last.gives fun _ _ => read

theorem takes_arrayLiteral {item : γ → List Char} {Given : γ → Expr → Prop} {xs : List γ}
    {t blank rest : List Char}
    (list : ItemList item (EndsEntry ']') (blank ++ ']' :: rest) xs t) (values : g.ReadsValues)
    (reads : ∀ x ∈ xs, ∀ after, EndsEntry ']' after →
      (g.spread <|> g.expression false).Takes (item x) after (Given x))
    (blanks : IsBlank blank) (bounded : t.length < g.bound) :
    g.arrayLiteral.Takes ('[' :: (t ++ (blank ++ [']']))) rest fun e =>
      ∃ l items, e = .array l items ∧ List.Forall₂ Given xs items := by
  have items := closes_array.takes_separatedLoosely list values reads blanks bounded
  have opening : IsSolid ('[' :: (t ++ (blank ++ [']']) ++ rest)) :=
    isSolid_cons (by decide) (by decide)
  have inner := Takes.bind (takes_symbol "[" isBlank_nil opening) fun _ _ => items
  exact (Takes.located_solid opening inner).gives fun read told => ⟨read.2, read.1, rfl, told.1⟩

theorem takes_arguments {item : γ → List Char} {Given : γ → Expr → Prop} {xs : List γ}
    {t blank rest : List Char}
    (list : ItemList item (EndsEntry ')') (blank ++ ')' :: rest) xs t) (values : g.ReadsValues)
    (reads : ∀ x ∈ xs, ∀ after, EndsEntry ')' after →
      (g.spread <|> g.expression false).Takes (item x) after (Given x))
    (blanks : IsBlank blank) (bounded : t.length < g.bound) :
    g.arguments.Takes ('(' :: (t ++ (blank ++ [')']))) rest (List.Forall₂ Given xs) := by
  have items := closes_arguments.takes_separatedLoosely list values reads blanks bounded
  have opening : IsSolid ('(' :: (t ++ (blank ++ [')']) ++ rest)) :=
    isSolid_cons (by decide) (by decide)
  exact Takes.bind (takes_symbol "(" isBlank_nil opening) fun _ _ => items

end Lists

section Keys

variable {key : List Char} {name : String}

inductive IsKey : List Char → String → Prop where
  | name {s : List Char} (name : IsName s) : IsKey s (String.ofList s)
  | string {s : List Char} (string : IsString s) : IsKey s (Text.unquote (String.ofList s))

def isKeyStart (c : Char) : Bool :=
  isNameStart c || c == '\\' || c == '\'' || c == '"'

theorem ne_of_isKeyStart {c x : Char} (start : isKeyStart c = true) (other : isKeyStart x = false) :
    c ≠ x := by
  rintro rfl
  rw [start] at other
  cases other

theorem IsKey.exists_cons (isKey : IsKey key name) :
    ∃ c t, key = c :: t ∧ isKeyStart c = true := by
  cases isKey with
  | name named =>
    obtain ⟨c, t, rfl, start | rfl⟩ := named.startsName
    · exact ⟨c, t, rfl, by simp [isKeyStart, start]⟩
    · exact ⟨'\\', t, rfl, by decide⟩
  | string string =>
    obtain ⟨q, body, quote, rfl, -⟩ := string.exists_contents
    refine ⟨q, _, rfl, ?_⟩
    rcases quote with rfl | rfl <;> decide

theorem isSpace_of_isKeyStart {c : Char} (start : isKeyStart c = true) : isSpace c = false := by
  simp only [isKeyStart, Bool.or_eq_true, beq_iff_eq] at start
  rcases start with ((start | rfl) | rfl) | rfl
  · simp only [isNameStart, Bool.and_eq_true] at start
    exact (isSpace_of_isNameChar start.1).1
  all_goals decide

theorem operatorAt_of_isKeyStart {c : Char} (start : isKeyStart c = true) (t : List Char) :
    operatorAt (c :: t) = "" := by
  simp only [isKeyStart, Bool.or_eq_true, beq_iff_eq] at start
  rcases start with ((start | rfl) | rfl) | rfl
  · exact operatorAt_startsName ⟨c, t, rfl, .inl start⟩
  all_goals simp [operatorAt, operators]

theorem IsKey.isSolid (isKey : IsKey key name) (after : List Char) : IsSolid (key ++ after) := by
  obtain ⟨c, t, rfl, start⟩ := isKey.exists_cons
  exact isSolid_cons (isSpace_of_isKeyStart start) (ne_of_isKeyStart start (by decide))

theorem IsKey.not_lookingAt (isKey : IsKey key name) {text : String} {x : Char}
    (single : text.toList = [x]) (other : isKeyStart x = false) (after : List Char) :
    (lookingAt text).Peeks (key ++ after) false := by
  have solid := isKey.isSolid after
  obtain ⟨c, t, rfl, start⟩ := isKey.exists_cons
  exact peeks_lookingAt_other single (ne_of_isKeyStart start other).symm isBlank_nil solid

theorem endsName_colon (after : List Char) : EndsName (':' :: after) := by
  rintro _ ⟨⟩
  decide

theorem IsKey.takes_key (isKey : IsKey key name) (after : List Char) :
    g.key.Takes key (':' :: after) (optionName? · = some name) := by
  have solid := isKey.isSolid (':' :: after)
  refine (peeks_ahead_solid solid).bind ?_
  cases isKey with
  | name named =>
    have read : word.Takes key (':' :: after) (·.text = String.ofList key) :=
      takes_word isBlank_nil named (endsName_colon after)
    obtain ⟨c, t, rfl, start⟩ := named.startsName
    rw [List.cons_append, List.head?_cons]
    split
    next same => exact absurd (Option.some.inj same) (ne_of_nameStart start (by decide))
    next same => exact absurd (Option.some.inj same) (ne_of_nameStart start (by decide))
    next same => exact absurd (Option.some.inj same) (ne_of_nameStart start (by decide))
    next same => exact absurd (Option.some.inj same) (ne_of_nameStart start (by decide))
    next c' _ _ _ _ same =>
      obtain rfl := Option.some.inj same
      have point : c ≠ '.' := ne_of_nameStart start (by decide)
      rw [if_neg (by simp [isDigit_of_nameStart start, point])]
      exact read.gives fun l text => congrArg some text
    next same => cases same
  | string string =>
    have read : (token stringLength?).Takes key (':' :: after) (·.text = String.ofList key) :=
      takes_token isBlank_nil solid (string.stringLength?_append _)
    obtain ⟨q, body, quote, rfl, -⟩ := string.exists_contents
    rcases quote with rfl | rfl
    · exact read.gives fun l text => by rw [← text]; rfl
    · exact read.gives fun l text => by rw [← text]; rfl

theorem IsKey.peeks_isModifier (isKey : IsKey key name) (after : List Char) :
    (g.isModifier methodModifiers [':', ',', '(', '\x7d', '=', '<', '?'] false).Peeks
      (key ++ ':' :: after) false := by
  have solid := isKey.isSolid (':' :: after)
  intro offset
  have word : Cursor.word ⟨key ++ ':' :: after, offset⟩ = wordAt (key ++ ':' :: after) :=
    congrArg Prod.fst (Option.some.inj (peeks_wordAt_solid solid offset))
  refine congrArg (fun found => some (found, _)) ?_
  dsimp only
  rw [word, solid, Nat.zero_add]
  cases isKey with
  | name named =>
    have colon : IsSolid (':' :: after) := isSolid_cons (by decide) (by decide)
    rw [wordAt_name named (endsName_colon after), String.length_ofList, Cursor.skip_append,
      Cursor.ahead, colon]
    simp
  | string string =>
    have none : wordAt (key ++ ':' :: after) = "" := by
      obtain ⟨q, body, quote, rfl, -⟩ := string.exists_contents
      rcases quote with rfl | rfl
      · exact wordAt_of_not_isNameStart (by decide) (by decide) _
      · exact wordAt_of_not_isNameStart (by decide) (by decide) _
    rw [none]
    rfl

end Keys

section Objects

variable {key value after blank : List Char} {name : String} {Given : Expr → Prop}

def IsPair (name : String) (Given : Expr → Prop) (m : ObjectMember) : Prop :=
  ∃ place key value, m = .pair place key value ∧ optionName? key = some name ∧ Given value

theorem takes_namedMember (isKey : IsKey key name) (positive : 0 < g.bound)
    (read : (g.expression false).Takes value after Given) :
    g.namedMember.Takes (key ++ ':' :: value) after fun make =>
      ∀ l, IsPair name Given (make l) := by
  have text : key ++ ':' :: value ++ after = key ++ ':' :: (value ++ after) := by simp
  have undecorated : (discard g.decorators).Peeks (key ++ ':' :: value ++ after) PUnit.unit := by
    rw [text]
    refine Peeks.bind_peeks (peeks_nothing ?_ positive) (peeks_pure _ _)
    exact (isKey.not_lookingAt rfl (by decide) _).bind_peeks (peeks_pure _ _)
  have unmodified :
      (g.methodStart methodModifiers [':', ',', '(', '\x7d', '=', '<', '?'] false).Peeks
        (key ++ ':' :: value ++ after) [] := by
    rw [text]
    refine (peeks_nothing ?_ positive).bind_peeks ?_
    · exact (isKey.peeks_isModifier _).bind_peeks (peeks_pure _ _)
    · exact (isKey.not_lookingAt rfl (by decide) _).bind_peeks (peeks_pure _ _)
  have colon : IsSolid (':' :: (value ++ after)) := isSolid_cons (by decide) (by decide)
  have other {text : String} {x : Char} (single : text.toList = [x]) (differ : x ≠ ':') :
      (lookingAt text).Peeks (':' :: value ++ after) false :=
    peeks_lookingAt_other single differ isBlank_nil colon
  have looking : (lookingAt ":").Peeks (':' :: value ++ after) true :=
    peeks_lookingAt ":" isBlank_nil colon
  unfold namedMember
  refine undecorated.bind (unmodified.bind ?_)
  refine (isKey.takes_key (value ++ after)).bind fun k named => ?_
  refine (other rfl (by decide)).bind ((other rfl (by decide)).bind ?_)
  refine (other rfl (by decide)).bind ?_
  rw [if_neg (by simp)]
  refine takes_guard rfl (looking.bind ?_)
  have sign := takes_symbol ":" isBlank_nil colon
  refine sign.bind fun _ _ => read.gives fun e given l => ?_
  exact ⟨l, k, e, rfl, named, given⟩

theorem takes_spaces (blanks : IsBlank blank) {c : Char} (dark : isSpace c = false)
    (s : List Char) : spaces.Takes blank (c :: s) fun _ => True := by
  have taken : (blank ++ c :: s).takeWhile isSpace = blank := by
    rw [List.takeWhile_append_of_pos blanks, List.takeWhile_cons_of_neg (by simp [dark]),
      List.append_nil]
  intro offset
  refine ⟨(), ?_, trivial⟩
  change some ((), Cursor.skip ((blank ++ c :: s).takeWhile isSpace).length
    ⟨blank ++ c :: s, offset⟩) = _
  rw [taken, Cursor.skip_append]

theorem takes_objectMember (isKey : IsKey key name) (positive : 0 < g.bound)
    (read : (g.expression false).Takes value after Given) :
    g.objectMember.Takes (key ++ ':' :: value) after (IsPair name Given) := by
  have solid : IsSolid (key ++ ':' :: value ++ after) := by
    rw [List.append_assoc]
    exact isKey.isSolid _
  have plain : operatorAt (key ++ ':' :: value ++ after) = "" := by
    obtain ⟨c, t, rfl, start⟩ := isKey.exists_cons
    exact operatorAt_of_isKeyStart start _
  have next : nextOperator.Peeks (key ++ ':' :: value ++ after) "" := by
    have peek := peeks_nextOperator isBlank_nil solid
    rwa [plain] at peek
  refine next.bind ?_
  rw [if_neg (by decide)]
  refine (Takes.located_solid solid (takes_namedMember isKey positive read)).gives ?_
  exact fun made told => told.1 made.2

theorem takes_objectItem (isKey : IsKey key name) (blanks : IsBlank blank) (positive : 0 < g.bound)
    {more : List Char} (read : (g.expression false).Takes value (',' :: more) Given) :
    g.objectItem.Takes (blank ++ (key ++ ':' :: value)) (',' :: more) fun item =>
      ∃ m, item = some (some m) ∧ IsPair name Given m := by
  have member := takes_objectMember isKey positive read
  have solid : IsSolid (',' :: more) := isSolid_cons (by decide) (by decide)
  obtain ⟨c, t, rfl, start⟩ := isKey.exists_cons
  unfold objectItem
  refine Takes.bind (takes_spaces blanks (isSpace_of_isKeyStart start) _) fun _ _ => ?_
  refine takes_here fun cursor rest => ?_
  rw [rest]
  split
  next same =>
    exact absurd (List.cons.inj same).1 (ne_of_isKeyStart start (by decide))
  next same =>
    exact absurd (List.cons.inj same).1 (ne_of_isKeyStart start (by decide))
  next =>
    have none := commentLength?_cons (ne_of_isKeyStart start (by decide : isKeyStart '/' = false))
    rw [List.cons_append, List.cons_append, none, if_neg (by decide)]
    refine member.bind_nil fun m pair => ?_
    refine (peeks_lookingAt "," isBlank_nil solid).bind (t := []) ?_
    refine (peeks_lookingAt "\x7d" isBlank_nil solid).bind (t := []) (takes_guard rfl ?_)
    exact takes_pure ⟨m, rfl, pair⟩

theorem takes_objectItem_comma (more : List Char) :
    g.objectItem.Takes [','] more (· = some none) := by
  have none := takes_spaces isBlank_nil (by decide : isSpace ',' = false) more
  refine Takes.bind (s := []) none fun _ _ => takes_here fun cursor rest => ?_
  rw [rest]
  exact (takes_skip [','] more).gives fun _ _ => rfl

theorem takes_objectItem_end (blanks : IsBlank blank) (rest : List Char) :
    g.objectItem.Takes blank ('\x7d' :: rest) (· = none) := by
  have spaces := takes_spaces blanks (by decide : isSpace '\x7d' = false) rest
  refine spaces.bind_nil fun _ _ => takes_here fun cursor rest => ?_
  rw [rest]
  exact takes_pure rfl

def EndsPair (after : List Char) : Prop :=
  ∃ more, after = ',' :: more

theorem takes_objectLiteral {γ : Type} {entry : γ → List Char} {name : γ → String}
    {Given : γ → Expr → Prop} {xs : List γ} {t blank rest : List Char}
    (list : ItemList entry EndsPair (blank ++ '\x7d' :: rest) xs t)
    (reads : ∀ x ∈ xs, ∃ blank key value, entry x = blank ++ (key ++ ':' :: value) ∧
      IsBlank blank ∧ IsKey key (name x) ∧
        ∀ more, (g.expression false).Takes value (',' :: more) (Given x))
    (blanks : IsBlank blank) (bounded : t.length < g.bound) :
    g.objectLiteral.Takes ('\x7b' :: (t ++ (blank ++ ['\x7d']))) rest fun e =>
      ∃ l members, e = .object l members ∧
        List.Forall₂ (fun x m => IsPair (name x) (Given x) m) xs members := by
  have item : ∀ x ∈ xs, ∀ after, EndsPair after → g.objectItem.Takes (entry x) after fun item =>
      ∃ m, item = some (some m) ∧ IsPair (name x) (Given x) m := by
    rintro x member _ ⟨more, rfl⟩
    obtain ⟨front, key, value, same, blanks, isKey, read⟩ := reads x member
    rw [same]
    exact takes_objectItem isKey blanks (by omega) (read more)
  have filled : ∀ x ∈ xs, entry x ≠ [] := by
    intro x member
    obtain ⟨front, key, value, same, -⟩ := reads x member
    simp [same]
  have steps := list.takes takes_objectItem_comma item filled (takes_objectItem_end blanks rest)
    bounded
  have closing : IsSolid ('\x7d' :: rest) := isSolid_cons (by decide) (by decide)
  have items : (repeatedly g.bound g.objectItem >>= fun items => do
      symbol "\x7d"
      return items.filterMap id).Takes (t ++ (blank ++ ['\x7d'])) rest
        (List.Forall₂ (fun x m => IsPair (name x) (Given x) m) xs) := by
    rw [← List.append_assoc]
    refine Takes.bind steps fun read told => ?_
    exact Takes.gives (takes_symbol "\x7d" isBlank_nil closing) fun _ _ => told
  have opening : IsSolid ('\x7b' :: (t ++ (blank ++ ['\x7d']) ++ rest)) :=
    isSolid_cons (by decide) (by decide)
  have inner := Takes.bind (takes_symbol "\x7b" isBlank_nil opening) fun _ _ => items
  exact (Takes.located_solid opening inner).gives fun read told => ⟨read.2, read.1, rfl, told.1⟩

end Objects

section Brackets

variable {s : List Char} {Told : Expr → Prop}

theorem takes_primary_array (read : g.arrayLiteral.Takes ('[' :: s) rest Told) :
    (g.primary false).Takes ('[' :: s) rest Told := by
  have solid : IsSolid ('[' :: (s ++ rest)) := isSolid_cons (by decide) (by decide)
  exact (peeks_ahead_solid solid).bind (t := '[' :: s) read.orElse

theorem takes_primary_object (read : g.objectLiteral.Takes ('\x7b' :: s) rest Told) :
    (g.primary false).Takes ('\x7b' :: s) rest Told := by
  have solid : IsSolid ('\x7b' :: (s ++ rest)) := isSolid_cons (by decide) (by decide)
  exact (peeks_ahead_solid solid).bind (t := '\x7b' :: s) read.orElse

end Brackets

end Grammar

end SchemaMigration.Source
