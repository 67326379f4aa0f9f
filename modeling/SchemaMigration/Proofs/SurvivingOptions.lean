import SchemaMigration.Proofs.RereadSteps

set_option autoImplicit false

namespace SchemaMigration

open Source Source.Parser Source.Grammar

namespace Literal

variable {language : Language} {close : Char} {listed : Bool}

def reservedWords : List String :=
  ["null", "true", "false", "class", "import", "new", "typeof", "void", "delete", "await", "yield",
    "function", "async"]

theorem takes_wordValue {g : Grammar} {name : String} {rest : List Char}
    (isName : IsName name.toList) (free : name ∉ reservedWords) (ends : EndsName rest) :
    g.wordValue.Takes name.toList rest (ofExpr · = .raw name) := by
  have read : word.Takes name.toList rest (·.text = name) := by
    have taken := takes_word isBlank_nil isName ends
    rwa [List.nil_append, String.ofList_toList] at taken
  simp only [reservedWords, List.mem_cons, List.not_mem_nil, or_false, not_or] at free
  refine (peeks_nextWord_solid name isName ends).bind ?_
  rw [if_neg (by simp [free]), if_neg (by simp [free]), if_neg (by simp [free])]
  split
  next => exact read.gives fun l text => congrArg raw text
  next =>
    rw [if_neg (by simp [free])]
    exact takes_guard (by simp [free]) (read.gives fun l text => congrArg raw text)

theorem isOperand_steps {name : String} (isName : IsName name.toList) (free : name ∉ reservedWords)
    {s : List Char} (steps : IsSteps language s) :
    IsOperand language (name.toList ++ s) (Verbatim (name.toList ++ s)) := by
  refine isOperand_of_countable fun bound depth roomy deep rest ends => ?_
  have apart := free
  simp only [reservedWords, List.mem_cons, List.not_mem_nil, or_false, not_or] at apart
  have plain : String.ofList name.toList ∉
      ["typeof", "void", "delete", "await", "new", "yield"] := by simp [apart]
  have plain' : String.ofList name.toList ∉ ["async", "function"] := by simp [apart]
  have stops := steps.endsName ends
  have opens : OpensValue (name.toList ++ s ++ rest) := by
    rw [List.append_assoc]
    exact opensValue_name isName stops plain
  have read : ((nested language bound depth).primary false).Takes name.toList (s ++ rest)
      (Verbatim name.toList) := by
    refine takes_primary_word isName stops (steps.refuses_arrowBody ends) plain' ?_
    refine (takes_wordValue isName free stops).mono fun e same => ?_
    rw [Verbatim, same, String.ofList_toList]
  exact ⟨opens, steps.takes_countable ends roomy deep opens read⟩

theorem stands_of_isOperand {text : String} (value : IsOperand language text.toList
    (Verbatim text.toList)) (bracket : close ∈ [']', ')']) (listed : Bool) :
    Stands language close listed text :=
  (value.isEntry bracket listed).mono fun e same => by rw [same, String.ofList_toList]

theorem stands_steps {name : String} (isName : IsName name.toList) (free : name ∉ reservedWords)
    {s : List Char} (steps : IsSteps language s) (bracket : close ∈ [']', ')']) (listed : Bool) :
    Stands language close listed (name ++ String.ofList s) := by
  refine stands_of_isOperand ?_ bracket listed
  rw [String.toList_append, String.toList_ofList]
  exact isOperand_steps isName free steps

section Numbers

variable {g : Grammar} {s rest : List Char}

theorem operatorAt_negative (number : IsNumber s) (rest : List Char) :
    operatorAt ('-' :: (s ++ rest)) = "-" := by
  obtain ⟨c, tail, rfl, first⟩ := number.exists_cons
  have apart : '-' ≠ c ∧ '=' ≠ c := by
    rcases first with digit | ⟨rfl, -⟩
    next => exact ⟨(ne_of_isDigit digit (by decide)).symm, (ne_of_isDigit digit (by decide)).symm⟩
    next => decide
  simp [operatorAt, operators, List.isPrefixOf, apart]

theorem takes_leadingOperator_minus (number : IsNumber s) (rest : List Char) :
    g.leadingOperator.Takes ['-'] (s ++ rest) fun _ => True := by
  have solid : IsSolid ('-' :: (s ++ rest)) := isSolid_cons (by decide) (by decide)
  have minus := takes_operator "-" isBlank_nil solid (operatorAt_negative number rest)
  have mark := peeks_nextOperator isBlank_nil solid
  rw [operatorAt_negative number] at mark
  refine Peeks.bind (t := ['-']) mark ?_
  rw [if_pos (by decide)]
  exact minus

theorem takes_operand_negative (number : IsNumber s) (ends : EndsValue rest) (roomy : 1 < g.bound) :
    (g.operand false).Takes ('-' :: s) rest (Verbatim ('-' :: s)) := by
  have opens := opensValue_number number rest
  have once : (many g.bound g.leadingOperator).Takes ['-'] (s ++ rest) (· ≠ []) := by
    obtain ⟨bound, same⟩ : ∃ n, g.bound = n + 1 := ⟨g.bound - 1, by omega⟩
    have none : (many bound g.leadingOperator).Peeks (s ++ rest) [] :=
      peeks_many (by omega) opens.refuses_leadingOperator
    have sign := (takes_leadingOperator_minus (g := g) number rest).optionally
    rw [same]
    refine (sign.repeatedly_cons (t := []) (none.takes rfl)).mono ?_
    rintro _ ⟨mark, more, rfl, -⟩
    exact List.cons_ne_nil mark more
  have value := opens.takes_countable (by omega) ends (takes_primary_number (g := g) number ends)
  have inner : (do
      let marks ← many g.bound g.leadingOperator
      return (marks, ← g.countable false) : Parser (List Unit × Expr)).Takes (['-'] ++ s) rest
        fun read => read.1 ≠ [] :=
    Takes.bind once fun marks some => value.gives fun e _ => some
  refine (Takes.located_solid (isSolid_cons (by decide) (by decide)) inner).gives ?_
  rintro ⟨⟨marks, e⟩, lexeme⟩ ⟨some, text⟩
  rw [if_neg (by simpa using some), Verbatim, ofExpr, text]
  rfl

end Numbers

theorem stands_negative {text : String} (number : IsNumber text.toList)
    (bracket : close ∈ [']', ')']) (listed : Bool) :
    Stands language close listed ("-" ++ text) := by
  refine stands_of_isOperand ?_ bracket listed
  have written : ("-" ++ text).toList = '-' :: text.toList := by simp
  rw [written]
  intro bound depth roomy deep rest ends
  refine ⟨isSolid_cons (by decide) (by decide), ?_, ?_, ?_⟩
  next =>
    rw [List.cons_append, wordAt_of_not_isNameStart (by decide) (by decide)]
    decide
  next =>
    rw [List.cons_append, operatorAt_negative number]
    decide
  next => exact takes_operand_negative number ends (by rw [bound_nested]; omega)

theorem stands_spread {text : String} {Told : Expr → Prop}
    (entry : IsEntry language close false text.toList Told) :
    Stands language close true ("..." ++ text) := by
  intro bound depth roomy deep rest ends
  rw [String.toList_append] at roomy deep ⊢
  rw [List.length_append] at roomy deep
  have solid : IsSolid ("...".toList ++ (text.toList ++ rest)) :=
    isSolid_cons (by decide) (by decide)
  have dots := takes_operator "..." isBlank_nil solid (by simp [operatorAt, operators])
  have value := entry bound depth (by omega) (by omega) rest ends
  have inner : (Parser.operator "..." >>= fun _ => discard
      ((nested language bound depth).expression false)).Takes ("...".toList ++ text.toList) rest
        fun _ => True := Takes.bind dots fun _ _ => value.discard
  refine Takes.orElse ((inner.extent_solid (by rwa [List.append_assoc])).gives fun l written => ?_)
  rw [ofExpr, written, String.ofList_append, String.ofList_toList, String.ofList_toList]

section Functions

variable {g : Grammar} {s rest : List Char} {Told : Expr → Prop}

theorem takes_signature (positive : 0 < g.bound) (s : List Char) :
    (g.signature false).Takes ['(', ')'] (' ' :: '=' :: s) fun _ => True := by
  have opening : IsSolid ('(' :: ')' :: ' ' :: '=' :: s) := isSolid_cons (by decide) (by decide)
  have closing : IsSolid (')' :: ' ' :: '=' :: s) := isSolid_cons (by decide) (by decide)
  have arrow : IsSolid ('=' :: s) := isSolid_cons (by decide) (by decide)
  have angle : (lookingAt "<").Peeks ('(' :: ')' :: ' ' :: '=' :: s) false :=
    peeks_lookingAt_other rfl (by decide) isBlank_nil opening
  have colon : (lookingAt ":").Peeks (' ' :: '=' :: s) false :=
    peeks_lookingAt_other rfl (by decide) isBlank_space arrow
  have ends : (lookingAt ")").Peeks (')' :: ' ' :: '=' :: s) true :=
    peeks_lookingAt ")" isBlank_nil closing
  have untyped : g.optionalTypeParameters.Peeks ('(' :: ')' :: ' ' :: '=' :: s) () := by
    refine angle.bind_peeks ?_
    rw [if_neg (by simp)]
    exact peeks_pure _ _
  have noResult : (g.optionalResult false).Peeks (' ' :: '=' :: s) () := by
    refine colon.bind_peeks ?_
    rw [if_neg (by simp)]
    exact peeks_pure _ _
  have none : (g.separated ")" g.parameter).Takes [')'] (' ' :: '=' :: s) fun _ => True := by
    rw [separated_eq]
    refine (peeks_nothing (ends.bind_peeks (peeks_pure _ _)) positive).bind ?_
    exact Takes.gives (takes_symbol ")" isBlank_nil closing) fun _ _ => trivial
  have parameters : g.parameters.Takes ['(', ')'] (' ' :: '=' :: s) fun _ => True :=
    Takes.bind (takes_symbol "(" isBlank_nil opening) fun _ _ => none.discard
  refine untyped.bind (parameters.bind_nil fun _ _ => ?_)
  exact noResult.takes trivial

theorem takes_primary_function (positive : 0 < g.bound)
    (braces : (lookingAt "\x7b").Peeks (s ++ rest) false)
    (value : (g.expression false).Takes s rest Told) :
    (g.primary false).Takes ('(' :: ')' :: ' ' :: '=' :: '>' :: s) rest
      (Verbatim ('(' :: ')' :: ' ' :: '=' :: '>' :: s)) := by
  have solid : IsSolid ('(' :: ')' :: ' ' :: '=' :: '>' :: (s ++ rest)) :=
    isSolid_cons (by decide) (by decide)
  have sign : IsSolid ('=' :: '>' :: (s ++ rest)) := isSolid_cons (by decide) (by decide)
  have noWord : nextWord.Peeks ('(' :: ')' :: ' ' :: '=' :: '>' :: (s ++ rest)) "" :=
    peeks_nextWord_none isBlank_nil solid rfl
  have noName : word.Refuses ('(' :: ')' :: ' ' :: '=' :: '>' :: (s ++ rest)) :=
    refuses_token isBlank_nil solid rfl
  have noMark : (discard (optionally (g.asyncMark false))).Peeks
      ('(' :: ')' :: ' ' :: '=' :: '>' :: (s ++ rest)) PUnit.unit :=
    (refuses_asyncMark noWord (by decide)).optionally.bind_peeks (peeks_pure _ _)
  have opening : (lookingAt "(").Peeks ('(' :: ')' :: ' ' :: '=' :: '>' :: (s ++ rest)) true :=
    peeks_lookingAt "(" isBlank_nil solid
  have angle : (lookingAt "<").Peeks ('(' :: ')' :: ' ' :: '=' :: '>' :: (s ++ rest)) false :=
    peeks_lookingAt "<" isBlank_nil solid
  have body : (g.arrowBody false).Takes (' ' :: '=' :: '>' :: s) rest fun _ => True := by
    have arrow := takes_operator "=>" isBlank_space sign (by simp [operatorAt, operators])
    exact Takes.bind arrow fun _ _ => braces.bind value.discard
  have function : (g.arrowFunction false).Takes ('(' :: ')' :: ' ' :: '=' :: '>' :: s) rest
      fun _ => True := by
    refine Refuses.orElse_takes noName.bind.bind (noMark.bind (opening.bind (angle.bind ?_)))
    exact Takes.bind (takes_signature positive _) fun _ _ => body
  refine (peeks_ahead_solid solid).bind (t := '(' :: ')' :: ' ' :: '=' :: '>' :: s) ?_
  refine Takes.orElse ((Takes.extent_solid solid function.orElse).gives fun l written => ?_)
  rw [Verbatim, ofExpr, written]

-- A function without parameters whose body is a value; braces would make the body a block.
theorem isValue_function {c : Char} {t : List Char} (body : IsOperand language (c :: t) Told)
    (dark : isSpace c = false) (comment : c ≠ '/') (block : '\x7b' ≠ c) :
    IsValue language ("() => ".toList ++ c :: t) (Verbatim ("() => ".toList ++ c :: t)) := by
  intro bound depth roomy deep rest ends
  refine ⟨opensValue_mark (by decide) _, ?_⟩
  have braces : (lookingAt "\x7b").Peeks ([' '] ++ c :: t ++ rest) false := by
    rw [List.append_assoc]
    exact peeks_lookingAt_other rfl block isBlank_space (isSolid_cons dark comment)
  have long : "() => ".toList.length = 6 := rfl
  rw [List.length_append, long] at roomy deep
  have reads : (nested language bound depth).ReadsValues := readsValues_nested (by omega) depth
  have value := reads.skips.takes isBlank_space (body.takes_expression (by omega) (by omega) ends)
  exact takes_primary_function (by rw [bound_nested]; omega) braces value

theorem stands_function {text : String} {c : Char} {t : List Char}
    (body : IsOperand language text.toList Told) (starts : text.toList = c :: t)
    (dark : isSpace c = false) (comment : c ≠ '/') (block : '\x7b' ≠ c)
    (bracket : close ∈ [']', ')']) (listed : Bool) :
    Stands language close listed ("() => " ++ text) := by
  refine stands_of_isOperand ?_ bracket listed
  rw [starts] at body
  rw [String.toList_append, starts]
  exact (isValue_function body dark comment block).isOperand

end Functions

theorem portable_object {entries : List (String × Literal)}
    (keys : ∀ entry ∈ entries, '\'' ∉ entry.1.toList ∨ '"' ∉ entry.1.toList)
    (values : ∀ entry ∈ entries, entry.2.Portable language false) :
    (object entries).Portable language listed := by
  refine .object (fun a first b second same => ?_) values
  rwa [requoted_eq (keys a first), requoted_eq (keys b second)] at same

end Literal

theorem options_reread {path : Path} {source : String} {f : SourceFile}
    (read : SourceFile.read path source = .ok f) {field : Field} (member : field ∈ f.fields)
    {language : Language} (portable : field.options.toLiteral.Portable language false)
    (depth : Nat) :
    ∃ e, readExpression? language (field.options.render depth) = some e ∧
      field.options.toLiteral.SameAs (Literal.ofExpr e) := by
  have value := (SourceFile.options_lexed read member).rereads portable depth nofun
  exact Grammar.exists_of_isOperand value.isOperand

def fieldSource (options : String) : String :=
  "export default Model.extend(\x7b tags: attr(" ++ options ++ ") \x7d)"

def keptOptions : String :=
  "\x7b defaultValue: () => Date.now(), \"it's\": [...more, -1], size: config.at(2, 'x').size \x7d"

def isKept : List (String × Literal) → Bool
  | [(k, .raw a), (l, .array [.raw b, .raw c]), (m, .raw d)] =>
    [k, a, l, b, c, m, d] ==
      ["defaultValue", "() => Date.now()", "it's", "...more", "-1", "size",
        "config.at(2, 'x').size"]
  | _ => false

theorem eq_of_isKept {entries : List (String × Literal)} (kept : isKept entries = true) :
    entries = [("defaultValue", .raw "() => Date.now()"),
      ("it's", .array [.raw "...more", .raw "-1"]), ("size", .raw "config.at(2, 'x').size")] := by
  unfold isKept at kept
  split at kept
  next => simp_all
  next => cases kept

theorem isSteps_now (language : Language) : Grammar.IsSteps language ".now()".toList := by
  have none (rest : List Char) :
      Grammar.ItemList id (EndsEntry ')') ([] ++ ')' :: rest) [] [] := .nil
  have name : IsName "now".toList := by decide
  have call : Grammar.IsSteps language "()".toList := .call none isBlank_nil nofun .nil
  exact .access name call

theorem isSteps_at (language : Language) :
    Grammar.IsSteps language ".at(2, 'x').size".toList := by
  have items (rest : List Char) : Grammar.ItemList id (EndsEntry ')') ([] ++ ')' :: rest)
      ["2".toList, " 'x'".toList] ([','].intercalate (["2".toList, " 'x'".toList].map id)) :=
    Grammar.itemList_inline (fun more => ⟨more, .inl rfl⟩) ⟨rest, .inr rfl⟩ _
  have number : Grammar.IsValue language "2".toList _ := Grammar.isValue_number (by decide)
  have string : Grammar.IsValue language "'x'".toList _ := Grammar.isValue_string (by decide)
  have reads : ∀ item ∈ ["2".toList, " 'x'".toList],
      Grammar.IsEntry language ')' true item fun _ => True := by
    rw [List.forall_mem_cons, List.forall_mem_singleton]
    exact ⟨(number.isOperand.isEntry (by decide) true).mono fun _ _ => trivial,
      ((string.isOperand.isEntry (by decide) true).blank isBlank_space).mono fun _ _ => trivial⟩
  have size : Grammar.IsSteps language ".size".toList :=
    .access (by decide : IsName "size".toList) .nil
  exact .access (by decide : IsName "at".toList) (.call items isBlank_nil reads size)

theorem portable_kept (language : Language) :
    (Literal.object [("defaultValue", .raw "() => Date.now()"),
      ("it's", .array [.raw "...more", .raw "-1"]),
      ("size", .raw "config.at(2, 'x').size")]).Portable language false := by
  have now : Grammar.IsOperand language "Date.now()".toList _ :=
    Literal.isOperand_steps (by decide : IsName "Date".toList) (by decide) (isSteps_now language)
  have function : Literal.Stands language ']' false "() => Date.now()" :=
    Literal.stands_function now rfl (by decide) (by decide) (by decide) (by decide) false
  have more : Literal.Stands language ']' false "more" :=
    Literal.stands_steps (by decide : IsName "more".toList) (by decide) .nil (by decide) false
  have spread : Literal.Stands language ']' true "...more" := Literal.stands_spread more
  have negative : Literal.Stands language ']' true "-1" :=
    Literal.stands_negative (by decide : IsNumber "1".toList) (by decide) true
  have path : Literal.Stands language ']' false "config.at(2, 'x').size" :=
    Literal.stands_steps (by decide : IsName "config".toList) (by decide) (isSteps_at language)
      (by decide) false
  refine Literal.portable_object (by simp) ?_
  rw [List.forall_mem_cons, List.forall_mem_cons, List.forall_mem_singleton]
  refine ⟨.raw function, .array ?_, .raw path⟩
  rw [List.forall_mem_cons, List.forall_mem_singleton]
  exact ⟨.raw spread, .raw negative⟩

theorem options_reread_kept :
    ∃ f field, SourceFile.read ⟨"app/models/user.js"⟩ (fieldSource keptOptions) = .ok f ∧
      field ∈ f.fields ∧ isKept field.options.entries = true ∧
      ∀ depth, ∃ e, readExpression? .javaScript (field.options.render depth) = some e ∧
        field.options.toLiteral.SameAs (Literal.ofExpr e) := by
  obtain ⟨f, read, some⟩ := SourceFile.exists_of_any (by decide +kernel :
    (SourceFile.read ⟨"app/models/user.js"⟩ (fieldSource keptOptions)).toOption.any
      (fun f => f.fields.any fun field => isKept field.options.entries) = true)
  obtain ⟨field, member, kept⟩ := List.any_eq_true.mp some
  refine ⟨f, field, read, member, kept, fun depth => options_reread read member ?_ depth⟩
  rw [FieldOptions.toLiteral, eq_of_isKept kept]
  exact portable_kept .javaScript

def Literal.outline : Literal → List Nat
  | .object entries => entries.map fun
    | (_, .array items) => items.length
    | _ => 1
  | _ => []

def rereadOutline? (path : Path) (options : String) : Option (List Nat × Option (List Nat)) := do
  let f ← (SourceFile.read path (fieldSource options)).toOption
  let field ← f.fields.head?
  let again := readExpression? f.language (field.options.render 0)
  return (field.options.toLiteral.outline, again.map fun e => (Literal.ofExpr e).outline)

-- A template over two lines, a comment in parentheses, a sequence in parentheses, a comment after
-- the body of a function, and two keys that quotes make equal.
theorem options_lost :
    rereadOutline? ⟨"user.js"⟩ "\x7b a: \x60one\ntwo\x60 \x7d" = some ([1], none) ∧
    rereadOutline? ⟨"user.js"⟩ "\x7b a: (/* none */ 5) \x7d" = some ([1], none) ∧
    rereadOutline? ⟨"user.js"⟩ "\x7b a: [(x, y)] \x7d" = some ([1], some [2]) ∧
    rereadOutline? ⟨"user.ts"⟩ "\x7b a: [() => \x7b\x7d // none\n] \x7d" = some ([1], none) ∧
    rereadOutline? ⟨"user.js"⟩ "\x7b \"x'\\\"\": 1, 'x\\'\\\"': 2 \x7d" =
      some ([1, 1], some [1]) := by
  decide +kernel

end SchemaMigration
