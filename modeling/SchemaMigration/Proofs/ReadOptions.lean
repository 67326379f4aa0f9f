import SchemaMigration.Field.Render
import SchemaMigration.Proofs.FieldCalls
import SchemaMigration.Proofs.LexedExpressions
import SchemaMigration.Proofs.SourcePlaces

set_option autoImplicit false

namespace SchemaMigration

open Source

inductive Literal.Lexed : Literal → Prop where
  | null : Lexed .null
  | bool (value : Bool) : Lexed (.bool value)
  | number {text : String} (number : IsNumber text.toList) : Lexed (.number text)
  | string {contents : String} (held : Contents [] contents.toList) : Lexed (.string contents)
  | raw (text : String) : Lexed (.raw text)
  | array {items : List Literal} (each : ∀ l ∈ items, Lexed l) : Lexed (.array items)
  | object {entries : List (String × Literal)} (distinct : (entries.map Prod.fst).Nodup)
      (keys : ∀ entry ∈ entries, Contents ['\n', '\r'] entry.1.toList)
      (values : ∀ entry ∈ entries, Lexed entry.2) : Lexed (.object entries)

section Entries

namespace FieldOptions

theorem mem_setEntry {key : String} {value : Literal} {entries : List (String × Literal)}
    {entry : String × Literal} (member : entry ∈ setEntry key value entries) :
    entry ∈ entries ∨ entry.2 = value ∧ (entry.1 = key ∨ entry.1 ∈ entries.map Prod.fst) := by
  induction entries with
  | nil =>
    obtain rfl := List.mem_singleton.mp member
    exact .inr ⟨rfl, .inl rfl⟩
  | cons first rest ih =>
    obtain ⟨k, v⟩ := first
    rw [setEntry] at member
    split at member
    next =>
      rcases List.mem_cons.mp member with rfl | later
      · exact .inr ⟨rfl, .inr List.mem_cons_self⟩
      · exact .inl (List.mem_cons_of_mem _ later)
    next =>
      rcases List.mem_cons.mp member with rfl | later
      · exact .inl List.mem_cons_self
      · rcases ih later with kept | ⟨same, rfl | held⟩
        · exact .inl (List.mem_cons_of_mem _ kept)
        · exact .inr ⟨same, .inl rfl⟩
        · exact .inr ⟨same, .inr (List.mem_cons_of_mem _ held)⟩

theorem keys_setEntry (key : String) (value : Literal) (entries : List (String × Literal)) :
    (setEntry key value entries).map Prod.fst =
      if key ∈ entries.map Prod.fst then entries.map Prod.fst
      else entries.map Prod.fst ++ [key] := by
  induction entries with
  | nil => rfl
  | cons first rest ih =>
    obtain ⟨k, v⟩ := first
    rw [setEntry]
    by_cases same : k = key
    · simp [same]
    · have differ : key ≠ k := fun eq => same eq.symm
      simp only [beq_iff_eq, same, if_false, List.map_cons, ih, List.mem_cons, differ, false_or]
      split <;> rfl

theorem nodup_merge {o : FieldOptions} (distinct : o.keys.Nodup)
    (entries : List (String × Literal)) : (o.merge ⟨entries⟩).keys.Nodup := by
  unfold merge
  induction entries generalizing o with
  | nil => exact distinct
  | cons first rest ih =>
    refine ih ?_
    change ((setEntry first.1 first.2 o.entries).map Prod.fst).Nodup
    rw [keys_setEntry]
    split
    next => exact distinct
    next absent =>
      refine List.nodup_append.mpr ⟨distinct, by simp, fun a member b last same => absent ?_⟩
      rwa [← List.mem_singleton.mp last, ← same]

theorem mem_merge (Keyed : String → Prop) (Valued : Literal → Prop) {o : FieldOptions}
    {entries : List (String × Literal)}
    (old : ∀ entry ∈ o.entries, Keyed entry.1 ∧ Valued entry.2)
    (new : ∀ entry ∈ entries, Keyed entry.1 ∧ Valued entry.2) :
    ∀ entry ∈ (o.merge ⟨entries⟩).entries, Keyed entry.1 ∧ Valued entry.2 := by
  unfold merge
  induction entries generalizing o with
  | nil => exact old
  | cons first rest ih =>
    refine ih (fun entry member => ?_) fun entry member => new entry (List.mem_cons_of_mem _ member)
    obtain ⟨keyed, valued⟩ := new first List.mem_cons_self
    rcases mem_setEntry member with kept | ⟨same, key | held⟩
    · exact old entry kept
    · exact ⟨key ▸ keyed, same ▸ valued⟩
    · obtain ⟨other, listed, key⟩ := List.mem_map.mp held
      exact ⟨key ▸ (old other listed).1, same ▸ valued⟩

end FieldOptions

namespace Literal

theorem ofExprs_eq (items : List Expr) : ofExprs items = items.map ofExpr := by
  induction items with
  | nil => rfl
  | cons e rest ih => rw [ofExprs, ih, List.map_cons]

theorem exists_pair_of_entriesOf? {members : List ObjectMember}
    {entries : List (String × Literal)} (found : entriesOf? members = some entries)
    {entry : String × Literal} (member : entry ∈ entries) :
    ∃ place key value, .pair place key value ∈ members ∧ optionName? key = some entry.1 ∧
      entry.2 = ofExpr value := by
  induction members generalizing entries with
  | nil =>
    cases found
    cases member
  | cons m rest ih =>
    cases m with
    | comment place =>
      rw [entriesOf?] at found
      obtain ⟨place, key, value, listed, facts⟩ := ih found member
      exact ⟨place, key, value, List.mem_cons_of_mem _ listed, facts⟩
    | pair place key value =>
      rw [entriesOf?] at found
      split at found
      next name later named others =>
        cases found
        rcases List.mem_cons.mp member with rfl | further
        · exact ⟨place, key, value, List.mem_cons_self, named, rfl⟩
        · obtain ⟨place, key, value, listed, facts⟩ := ih others further
          exact ⟨place, key, value, List.mem_cons_of_mem _ listed, facts⟩
      next => cases found
    | method | shorthand | spread => cases found

theorem unquote_template {text : String} (template : IsTemplate text.toList)
    (plain : isPlainTemplate text.toList = true) : Contents [] (Text.unquote text).toList := by
  obtain ⟨body, split, contents⟩ := template plain
  rw [Text.unquote, split, Text.unquoteChars_quoted _ body (by decide), String.toList_ofList]
  exact contents.mono fun _ stop => absurd stop List.not_mem_nil

theorem unquote_string {text : String} (string : IsString text.toList) :
    Contents [] (Text.unquote text).toList := by
  obtain ⟨q, body, quote, split, contents⟩ := string.exists_contents
  have kind : Text.isQuote q = true := by rcases quote with rfl | rfl <;> rfl
  rw [Text.unquote, split, Text.unquoteChars_quoted q body kind, String.toList_ofList]
  exact contents.mono fun _ stop => absurd stop List.not_mem_nil

theorem lexed_ofExpr {e : Expr} (lexed : e.Lexed) : (ofExpr e).Lexed := by
  induction lexed with
  | @atom e isAtom =>
    cases e with
    | null => exact .null
    | boolean => exact .bool _
    | identifier | access | target | other => exact .raw _
    | number | string | template | array | object | call | parenthesized | classLiteral =>
      cases isAtom
  | number number => exact .number number
  | string string => exact .string (unquote_string string)
  | template template =>
    rw [ofExpr]
    split
    next plain => exact .string (unquote_template template plain)
    next => exact .raw _
  | array each ih =>
    rw [ofExpr, ofExprs_eq]
    refine .array fun l member => ?_
    obtain ⟨e, listed, rfl⟩ := List.mem_map.mp member
    exact ih e listed
  | @object lexeme members keys values ih =>
    rw [ofExpr]
    split
    next entries found =>
      have each : ∀ entry ∈ entries, Contents ['\n', '\r'] entry.1.toList ∧ entry.2.Lexed := by
        intro entry member
        obtain ⟨place, key, value, listed, named, same⟩ := exists_pair_of_entriesOf? found member
        exact ⟨keys place key value listed _ named, same ▸ ih place key value listed⟩
      have all := FieldOptions.mem_merge (fun key => Contents ['\n', '\r'] key.toList) Literal.Lexed
        (o := .empty) nofun each
      exact .object (FieldOptions.nodup_merge (o := .empty) .nil entries)
        (fun entry member => (all entry member).1) fun entry member => (all entry member).2
    next => exact .raw _
  | call => exact .raw _
  | parenthesized _ ih => exact ih
  | classLiteral => exact .raw _

end Literal

end Entries

section Calls

theorem FieldCall.addArgument_lexed {call next : FieldCall} {position : Nat} {argument : Expr}
    (lexed : argument.Lexed) (held : call.options.toLiteral.Lexed)
    (added : call.addArgument position argument = .ok next) : next.options.toLiteral.Lexed := by
  cases addArgument_eq_ok_iff.mp added with
  | type => exact held
  | options _ _ read =>
    have literal := Literal.lexed_ofExpr lexed
    rwa [read] at literal

theorem FieldCall.addArguments_lexed {call last : FieldCall} {position : Nat}
    {arguments : List Expr} (each : ∀ a ∈ arguments, a.Lexed)
    (held : call.options.toLiteral.Lexed)
    (added : call.addArguments position arguments = .ok last) : last.options.toLiteral.Lexed := by
  induction arguments generalizing call position with
  | nil =>
    cases added
    exact held
  | cons argument rest ih =>
    rw [addArguments] at added
    split at added
    next next first =>
      refine ih (fun a member => each a (List.mem_cons_of_mem _ member)) ?_ added
      exact addArgument_lexed (each argument List.mem_cons_self) held first
    next => cases added

theorem FieldCall.read?_lexed {imports : List Import} {e : Expr} {call : FieldCall}
    (lexed : e.Lexed) (read : read? imports e = some (.ok call)) :
    call.options.toLiteral.Lexed := by
  obtain ⟨kind, arguments, calls, added⟩ := read?_eq_some_iff.mp read
  have each : ∀ a ∈ arguments, a.Lexed := by
    cases calls with
    | call =>
      cases lexed with
      | atom isAtom => cases isAtom
      | call each => exact each
    | bare => simp
  have none : FieldOptions.empty.toLiteral.Lexed := .object .nil nofun nofun
  exact addArguments_lexed each none added

end Calls

section Declarations

def Source.Declared.Lexed : Declared → Prop
  | .classDefinition _ definition => ∀ m ∈ definition.members, m.Lexed
  | .variables _ declarators => ∀ x ∈ declarators, ∀ e ∈ x.value, e.Lexed
  | .other _ => True

def Source.Exported.Lexed : Exported → Prop
  | .declared x => x.Lexed
  | .value e => e.Lexed

def Source.Statement.Lexed : Statement → Prop
  | .exportDefault _ exported => exported.Lexed
  | .exportDeclared _ x | .declared x => x.Lexed
  | .importFrom .. | .importOther _ | .other _ => True

def DeclarationBody.Lexed : DeclarationBody → Prop
  | .none => True
  | .classMembers members => ∀ m ∈ members, m.Lexed
  | .objectMembers members => ∀ m ∈ members, m.Lexed

theorem DeclarationForm.bodyArgument_lexed {arguments : List Expr}
    (each : ∀ a ∈ arguments, a.Lexed) : (bodyArgument arguments).Lexed := by
  rcases bodyArgument_cases arguments with none | ⟨lexeme, members, member, same⟩
  · rw [none]
    trivial
  · rw [same]
    cases each _ member with
    | atom isAtom => cases isAtom
    | object keys values =>
      rintro _ listed place key value rfl
      exact ⟨keys place key value listed, values place key value listed⟩

theorem DeclarationForm.MadeBy.lexed {binding : Option String} {e : Expr}
    {form : DeclarationForm} (made : MadeBy binding e form) (lexed : e.Lexed) :
    form.body.Lexed := by
  induction made with
  | classLiteral =>
    cases lexed with
    | atom isAtom => cases isAtom
    | classLiteral each =>
      rintro _ listed place key decorators rfl
      exact each place key decorators listed
  | extend | create =>
    cases lexed with
    | atom isAtom => cases isAtom
    | call each => exact bodyArgument_lexed each
  | parenthesized _ ih =>
    cases lexed with
    | atom isAtom => cases isAtom
    | parenthesized inner => exact ih inner

theorem DeclarationForm.ofDeclared?_lexed {binding : Option String} {x : Declared}
    {form : DeclarationForm} (lexed : x.Lexed) (made : ofDeclared? binding x = some form) :
    form.body.Lexed := by
  match x, made with
  | .classDefinition .., rfl => exact lexed

theorem Source.Declared.bound?_lexed {name : String} {x : Declared} {bound : Declared ⊕ Expr}
    (lexed : x.Lexed) (binds : x.bound? name = some bound) :
    Sum.elim Declared.Lexed Expr.Lexed bound := by
  cases binds_of_bound? binds with
  | definition => exact lexed
  | value listed held => exact lexed _ listed _ held

theorem Source.Statement.bound?_lexed {name : String} {s : Statement} {bound : Declared ⊕ Expr}
    (lexed : s.Lexed) (binds : s.bound? name = some bound) :
    Sum.elim Declared.Lexed Expr.Lexed bound := by
  unfold Statement.bound? at binds
  split at binds
  · exact Declared.bound?_lexed lexed binds
  · exact Declared.bound?_lexed lexed binds
  · exact Declared.bound?_lexed lexed binds
  · cases binds

theorem DefaultExport.body_lexed {all : List Statement} {exported : DefaultExport}
    (each : ∀ s ∈ all, s.Lexed) (found : find? all = some exported) {form : DeclarationForm}
    (shown : exported.form = some form) : form.body.Lexed := by
  obtain ⟨lexeme, what, -, member, rfl⟩ := exists_of_find? found
  have lexed : what.Lexed := each _ member
  unfold ofExported at shown
  split at shown
  next name =>
    rcases ofName_cases lexeme.span all name.text with same | ⟨s, bound, -, member, binds, same⟩
    · rw [same] at shown
      cases shown
    · rw [same] at shown
      have bounds := Statement.bound?_lexed (each s member) binds
      cases bound with
      | inl x => exact DeclarationForm.ofDeclared?_lexed bounds shown
      | inr e => exact (DeclarationForm.madeBy_of_ofExpr? shown).lexed bounds
  next => exact (DeclarationForm.madeBy_of_ofExpr? shown).lexed lexed
  next => exact DeclarationForm.ofDeclared?_lexed lexed shown

theorem DeclarationBody.Lexed.read {body : DeclarationBody} (lexed : body.Lexed)
    (imports : List Import) {field : Field} (member : .field field ∈ body.read imports) :
    field.options.toLiteral.Lexed := by
  -- A usable call makes the field.
  have called {call : Option (Except CallFault FieldCall)} {name : String} {behavior : Behavior}
      (made : readField call name behavior = .field field) :
      ∃ usable, call = some (.ok usable) ∧ field.options = usable.options := by
    unfold readField at made
    split at made
    next usable =>
      cases made
      exact ⟨usable, rfl, rfl⟩
    next => cases made
    next => cases made
  cases body with
  | none => cases member
  | classMembers members =>
    obtain ⟨start, m, listed, read⟩ := exists_of_mem_readMembers member
    cases m with
    | comment | decorators => cases read
    | field place key decorators =>
      obtain ⟨call, found, same⟩ := called (Option.some.inj read)
      obtain ⟨x, held, call?⟩ := List.exists_of_findSome?_eq_some found
      rw [same]
      exact FieldCall.read?_lexed (lexed _ listed place key decorators rfl x held) call?
    | method | signature | staticBlock => cases read
  | objectMembers members =>
    obtain ⟨start, m, listed, read⟩ := exists_of_mem_readMembers member
    cases m with
    | comment => cases read
    | pair place key value =>
      obtain ⟨call, found, same⟩ := called (Option.some.inj read)
      rw [same]
      exact FieldCall.read?_lexed (lexed _ listed place key value rfl).2 found
    | method | shorthand | spread => cases read

end Declarations

namespace Source

namespace Grammar

open Source.Parser

variable {g : Grammar}

theorem declaration_lexed (reads : g.ReadsTokens) (operator : Bool) (c : Cursor) :
    (g.declaration operator).Ensures c fun x _ => x.Lexed := by
  refine Ensures.orElse (Ensures.map ?_) (Ensures.orElse ?_ ?_)
  · exact fun _ _ _ => trivial
  · unfold variableDeclaration
    refine ensures_located (fun _ xs _ => ∀ x ∈ xs, ∀ e ∈ x.value, e.Lexed) (fun i _ => ?_)
      fun xs _ _ _ _ told => ensures_pure told
    refine ensures_bind fun _ m _ => ?_
    refine (ensures_declarators Expr.lexed_passedOn reads m).bind fun xs _ _ told => ?_
    exact ensures_bind fun _ _ _ => ensures_pure told
  · unfold classDeclaration
    refine ensures_located (fun _ definition _ => ∀ m ∈ definition.members, m.Lexed) (fun i _ => ?_)
      fun definition _ _ _ _ told => ensures_pure told
    refine ensures_bind fun _ _ _ => ensures_bind fun _ m _ => Ensures.ite ?_ ?_
    · exact ensures_bind fun _ m _ => classRest_lexed reads true m
    · exact (classRest_lexed reads true m).bind fun _ _ _ told => ensures_bind fun _ _ _ =>
        ensures_pure told

theorem exportStatement_lexed (reads : g.ReadsTokens) (c : Cursor) :
    g.exportStatement.Ensures c fun s _ => s.Lexed := by
  unfold exportStatement
  refine ensures_located (fun _ make _ => ∀ l, (make l).Lexed) (fun i _ => ?_)
    fun make _ _ _ _ told => ensures_pure (told _)
  refine ensures_bind fun _ _ _ => ensures_bind fun _ _ _ => ensures_bind fun _ m _ => ?_
  refine Ensures.ite ?_ (Ensures.orElse ?_ (Ensures.orElse ?_ ?_))
  · refine ensures_bind fun _ m _ => ?_
    have value : g.defaultValue.Ensures m fun x _ => x.Lexed :=
      Ensures.orElse (Ensures.map (declaration_lexed reads true m))
        ((reads true m).bind fun _ _ _ lexed => ensures_bind fun _ _ _ => ensures_pure lexed)
    exact value.bind fun _ _ _ lexed => ensures_pure fun _ => lexed
  · exact ensures_guard fun _ => ensures_bind fun _ _ _ => ensures_pure fun _ => trivial
  · exact ensures_bind fun _ _ _ => ensures_pure fun _ => trivial
  · exact (declaration_lexed reads false m).bind fun _ _ _ lexed => ensures_pure fun _ => lexed

theorem importStatement_lexed (c : Cursor) : g.importStatement.Ensures c fun s _ => s.Lexed := by
  unfold importStatement
  refine ensures_located (fun _ make _ => ∀ l, (make l).Lexed) (fun i _ => ?_)
    fun make _ _ _ _ told => ensures_pure (told _)
  refine ensures_bind fun _ m _ => Ensures.orElse ?_ (Ensures.orElse ?_ (Ensures.orElse ?_ ?_))
  · exact ensures_bind fun _ _ _ => ensures_pure fun _ => trivial
  · exact ensures_bind fun _ _ _ => ensures_bind fun _ _ _ => ensures_pure fun _ => trivial
  · exact ensures_bind fun _ _ _ => ensures_bind fun _ _ _ => ensures_pure fun _ => trivial
  · exact ensures_bind fun _ _ _ => ensures_pure fun _ => trivial

end Grammar

theorem readStatements?_lexed {language : Language} {source : String}
    {statements : List Statement} (read : readStatements? language source = some statements) :
    ∀ s ∈ statements, s.Lexed := by
  obtain ⟨⟨_, stop⟩, run, rfl⟩ := Option.map_eq_some_iff.mp read
  refine ensures_program_each (fun _ => trivial) (fun c => ?_) _ _ _ run
  have reads := Grammar.nested_readsTokens language (source.length + 16)
  exact Grammar.ensures_statementRule_each (fun _ => trivial) Grammar.importStatement_lexed
    (Grammar.exportStatement_lexed (reads _)) (Grammar.declaration_lexed (reads _) true) c

end Source

theorem SourceFile.options_lexed {path : Path} {source : String} {f : SourceFile}
    (read : SourceFile.read path source = .ok f) {field : Field} (member : field ∈ f.fields) :
    field.options.toLiteral.Lexed := by
  obtain ⟨language, statements, -, -, found, made, -⟩ := exists_of_read read
  rcases declared_cases made with ⟨-, none, -⟩ | ⟨exported, form, default, shown, -, fields, -⟩
  · rw [none] at member
    cases member
  · rw [fields] at member
    obtain ⟨reading, listed, kept⟩ := List.mem_filterMap.mp member
    cases reading with
    | behavior => cases kept
    | field declared =>
      cases kept
      exact (DefaultExport.body_lexed (readStatements?_lexed found) default shown).read _ listed

end SchemaMigration
