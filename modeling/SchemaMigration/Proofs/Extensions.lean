import SchemaMigration.Proofs.Accounting
import SchemaMigration.Proofs.Identifiers
import SchemaMigration.Proofs.PartialImports
import SchemaMigration.Proofs.SourcePlaces

set_option autoImplicit false

namespace SchemaMigration

open Source

def occursIn (texts : List String) (name : String) : Bool :=
  texts.any (Text.containsIdentifier · name)

namespace ExtensionShape

def opening (exportName : String) : ExtensionShape → String
  | .classShape => "export class " ++ exportName ++ " \x7b\n"
  | .objectShape => "export const " ++ exportName ++ " = \x7b\n"

def closing : ExtensionShape → String
  | .classShape => "\n\x7d\n"
  | .objectShape => "\n\x7d;\n"

def mark (b : Behavior) (text : String) : ExtensionShape → String
  | .classShape => if b.isClassField && !Extension.endsInSemicolon text then ";" else ""
  | .objectShape => ","

end ExtensionShape

def paragraph (separator : String) (texts : List String) : String :=
  if texts.isEmpty then "" else separator.intercalate texts ++ "\n\n"

-- The statement of an import with only the bytes of its specifier replaced.
def Import.Respecified (i : Import) (statement specifier replaced : String) : Prop :=
  ∃ before after, statement = before ++ i.specifier ++ after ∧
    replaced = before ++ specifier ++ after ∧
    i.specifierSpan.start = i.statement.start + Text.byteLength before.toList ∧
    i.specifierSpan.stop = i.specifierSpan.start + Text.byteLength i.specifier.toList

namespace Source.ImportBinding

inductive SpelledBare : ImportBinding → String → Prop where
  | single {b : ImportBinding} (kind : b.imported = .defaultExport) : SpelledBare b b.localName
  | whole {b : ImportBinding} (kind : b.imported = .wholeModule) :
      SpelledBare b ("* as " ++ b.localName)

inductive SpelledInside (marked : Bool) : ImportBinding → String → Prop where
  | same {b : ImportBinding} (kind : b.imported = .named b.localName) :
      SpelledInside marked b ((if b.isTypeOnly && !marked then "type " else "") ++ b.localName)
  | renamed {b : ImportBinding} {name : String} (kind : b.imported = .named name)
      (other : name ≠ b.localName) :
      SpelledInside marked b ((if b.isTypeOnly && !marked then "type " else "") ++ name ++ " as " ++
        b.localName)

def isNamed (b : ImportBinding) : Bool :=
  match b.imported with
  | .named _ => true
  | .defaultExport | .wholeModule => false

end Source.ImportBinding

def Import.Lists (marked : Bool) (kept : List ImportBinding) (specifier : String) (quote : Char)
    (text : String) : Prop :=
  ∃ bare inside,
    List.Forall₂ ImportBinding.SpelledBare (kept.filter fun b => !b.isNamed) bare ∧
    List.Forall₂ (ImportBinding.SpelledInside marked) (kept.filter ImportBinding.isNamed) inside ∧
    text = (if marked then "import type" else "import") ++ " " ++
      ", ".intercalate (bare ++
        if inside = [] then [] else ["\x7b " ++ ", ".intercalate inside ++ " \x7d"]) ++
      " from " ++ String.singleton quote ++ specifier ++ String.singleton quote ++ ";"

-- The import with fewer names. What is spelled is read again as these names, unless one of them
-- needs quotes, two of them are the default export, or the specifier breaks the quotes around it.
structure Import.Narrowed (language : Language) (i : Import) (kept : List ImportBinding)
    (specifier : String) (quote : Char) (text : String) : Prop where
  lists : Import.Lists i.isTypeOnly kept specifier quote text
  reads : Extension.Readable kept → IsString (quote :: (specifier.toList ++ [quote])) →
    Extension.ReadAs language text specifier (kept.map (Extension.asWritten i.isTypeOnly))

def Import.QuotedBy (f : SourceFile) (i : Import) (quote : Char) : Prop :=
  Text.isQuote quote = true ∧
    f.textAt? ⟨i.specifierSpan.start - 1, i.specifierSpan.start⟩ = some (String.singleton quote)

structure Import.KeptAs (f : SourceFile) (relocated : String → String) (occurs : String → Bool)
    (i : Import) (text : String) : Prop where
  whole : (∀ b ∈ i.bindings, occurs b.localName = true) →
    ∃ statement, f.textAt? i.statement = some statement ∧
      i.Respecified statement (relocated i.specifier) text
  some : (∃ b ∈ i.bindings, occurs b.localName = false) →
    ∃ quote, i.QuotedBy f quote ∧
      i.Narrowed f.language (i.bindings.filter fun b => occurs b.localName)
        (relocated i.specifier) quote text

def Import.isNeeded (occurs : String → Bool) (i : Import) : Bool :=
  i.bindings.isEmpty || i.locals.any occurs

structure Extension.MadeOf (f : SourceFile) (relocated : String → String) (e : Extension)
    (imports retained members : List String) : Prop where
  retained_texts : f.retained.map f.textAt? = retained.map some
  member_texts : (f.behaviors.map fun b => f.textAt? b.span) = members.map some
  import_texts : List.Forall₂ (Import.KeptAs f relocated (occursIn (retained ++ members)))
    (f.imports.filter (Import.isNeeded (occursIn (retained ++ members)))) imports
  shape : e.shape = .classShape ↔ f.declaration.map Declaration.kind = some .classBody
  code : e.code = paragraph "\n" imports ++ paragraph "\n\n" retained
    ++ e.shape.opening e.exportName
    ++ "\n\n".intercalate (List.zipWith (fun b text => "  " ++ text ++ e.shape.mark b text)
      f.behaviors members)
    ++ e.shape.closing

section Texts

variable {path : Path} {source : String} {f : SourceFile}

theorem SourceFile.isRead_of_mem_imports (read : SourceFile.read path source = .ok f) :
    ∀ i ∈ f.imports, i.IsRead (f.language == .typeScript) := by
  intro i listed
  obtain ⟨language, statements, stop, -, parsed, rfl, -⟩ := exists_of_read read
  obtain ⟨s, member, found⟩ := List.mem_filterMap.mp listed
  exact Extension.isRead_of_readStatements? parsed member found

def SourceFile.textOf (f : SourceFile) (span : Span) : String :=
  (f.textAt? span).getD ""

theorem SourceFile.textAt?_retained (read : SourceFile.read path source = .ok f) {span : Span}
    (member : span ∈ f.retained) : f.textAt? span = some (f.textOf span) := by
  obtain ⟨stop, order⟩ := retained_inOrder read
  obtain ⟨i, j, start, ij, -, rfl⟩ := order.of_mem member
  simp [textOf, textAt?_between start ij]

theorem SourceFile.textAt?_behavior (read : SourceFile.read path source = .ok f) {b : Behavior}
    (member : b ∈ f.behaviors) : f.textAt? b.span = some (f.textOf b.span) := by
  obtain ⟨c, stop, start, order⟩ := behaviors_inOrder read
  obtain ⟨i, j, ci, ij, -, span⟩ := order.of_mem member
  simp [textOf, span, textAt?_between (start.trans ci) ij]

theorem Extension.replaceBytes?_append (before middle after : List Char) (replacement : String) :
    replaceBytes? (String.ofList (before ++ (middle ++ after))) (Text.byteLength before)
      (Text.byteLength before + Text.byteLength middle) replacement =
      some (String.ofList before ++ replacement ++ String.ofList after) := by
  simp [replaceBytes?, Text.splitBytes?_byteLength_append]

theorem Import.ReadAt.respecified {i j : Cursor} {found : Import} (read : found.ReadAt i j)
    (start : ⟨f.source.toList, 0⟩ ≤ i) (ij : i ≤ j) (specifier : String) :
    ∃ statement replaced, f.textAt? found.statement = some statement ∧
      Extension.wholeImport f found specifier = .ok replaced ∧
      found.Respecified statement specifier replaced := by
  obtain ⟨k, l, q, body, ⟨front, rest, offset⟩, kl, ⟨back, rest', offset'⟩, -, size, literal, name,
    span⟩ := read.specifier
  have literalEnd := Cursor.offset_eq kl (s := q :: (body ++ [q])) (by simp [literal])
  simp only [Text.byteLength_cons, Text.byteLength_append, Text.byteLength_nil] at literalEnd
  have split : i.rest = ((front ++ [q]) ++ (body ++ (q :: back))) ++ j.rest := by
    simp [rest, literal, rest']
  have statement : f.textAt? found.statement =
      some (String.ofList ((front ++ [q]) ++ (body ++ (q :: back)))) := by
    rw [read.statement, SourceFile.textAt?_between start ij,
      Cursor.lexemeTo_eq split (Cursor.offset_eq ij split)]
  have cut : found.specifierSpan.start - found.statement.start =
      Text.byteLength (front ++ [q]) := by
    simp only [span, read.statement, Text.byteLength_append, Text.byteLength_cons,
      Text.byteLength_nil]
    omega
  have cut' : found.specifierSpan.stop - found.statement.start =
      Text.byteLength (front ++ [q]) + Text.byteLength body := by
    simp only [span, read.statement, Text.byteLength_append, Text.byteLength_cons,
      Text.byteLength_nil]
    omega
  refine ⟨_, String.ofList (front ++ [q]) ++ specifier ++ String.ofList (q :: back), statement, ?_,
    String.ofList (front ++ [q]), String.ofList (q :: back), ?_, rfl, ?_, ?_⟩
  · simp only [Extension.wholeImport, statement, cut, cut', Extension.replaceBytes?_append]
  · rw [name, ← String.ofList_append, ← String.ofList_append, List.append_assoc (front ++ [q])]
  · simp only [span, read.statement, String.toList_ofList, Text.byteLength_append,
      Text.byteLength_cons, Text.byteLength_nil]
    omega
  · simp only [span, name, String.toList_ofList]
    omega

theorem Import.ReadAt.quote {i j : Cursor} {found : Import} (read : found.ReadAt i j)
    (start : ⟨f.source.toList, 0⟩ ≤ i) : ∃ q, found.QuotedBy f q := by
  obtain ⟨k, l, q, body, ik, -, -, isQuote, size, literal, -, span⟩ := read.specifier
  have text := SourceFile.textAt?_between (start.trans ik) (k.le_skip 1)
  rw [Cursor.lexemeTo_skip, Cursor.skip_eq_drop, literal] at text
  refine ⟨q, isQuote, ?_⟩
  simpa [span, size] using text

theorem SourceFile.quotedBy_of_mem_imports (read : SourceFile.read path source = .ok f)
    {i : Import} (listed : i ∈ f.imports) : ∃ quote, i.QuotedBy f quote := by
  obtain ⟨stop, order⟩ := imports_inOrder read
  obtain ⟨_, _, start, -, -, place⟩ := order.of_mem listed
  exact place.quote start

end Texts

section Shapes

theorem DeclarationForm.bodyArgument_ne_classMembers (arguments : List Expr)
    (members : List ClassMember) : bodyArgument arguments ≠ .classMembers members := by
  rw [bodyArgument_eq]
  cases (arguments.filterMap Expr.entries?).getLast? <;> exact nofun

theorem DeclarationForm.MadeBy.kind_iff {binding : Option String} {e : Expr}
    {form : DeclarationForm} (made : MadeBy binding e form) :
    form.kind = .classBody ↔ ∃ members, form.body = .classMembers members := by
  induction made with
  | classLiteral => exact ⟨fun _ => ⟨_, rfl⟩, fun _ => rfl⟩
  | extend | create =>
    refine ⟨nofun, fun ⟨members, same⟩ => ?_⟩
    exact absurd same (bodyArgument_ne_classMembers _ members)
  | parenthesized _ ih => exact ih

theorem DeclarationForm.kind_of_ofBound? {binding : Option String} {x : Declared ⊕ Expr}
    {form : DeclarationForm} (made : ofBound? binding x = some form) :
    form.kind = .classBody ↔ ∃ members, form.body = .classMembers members := by
  match x, made with
  | .inl (.classDefinition ..), rfl => exact ⟨fun _ => ⟨_, rfl⟩, fun _ => rfl⟩
  | .inr e, made => exact (madeBy_of_ofExpr? made).kind_iff

theorem DeclarationBody.origin_of_mem {body : DeclarationBody} {imports : List Import}
    {b : Behavior} (member : b ∈ (body.read imports).filterMap MemberReading.behavior?) :
    b.origin = .classBody ↔ ∃ members, body = .classMembers members := by
  obtain ⟨r, listed, kept⟩ := List.mem_filterMap.mp member
  cases body with
  | none => cases listed
  | classMembers members =>
    obtain ⟨start, m, -, read⟩ := exists_of_mem_readMembers listed
    simp [(readClassMember?_behavior read kept).2]
  | objectMembers members =>
    obtain ⟨start, m, -, read⟩ := exists_of_mem_readMembers listed
    simp [(readObjectMember?_behavior read kept).2]

theorem SourceFile.shapeOf_behaviors {path : Path} {source : String} {f : SourceFile}
    (read : SourceFile.read path source = .ok f) (nonempty : f.behaviors ≠ []) :
    Extension.shapeOf f.behaviors = .classShape ↔
      f.declaration.map Declaration.kind = some .classBody := by
  obtain ⟨language, statements, stop, -, -, made, -⟩ := exists_of_read read
  rcases declared_cases made with ⟨-, -, empty⟩ | ⟨exported, form, found, shown, declared, -, same⟩
  · exact absurd empty nonempty
  obtain ⟨binding, x, -, origin⟩ := DefaultExport.exists_subject? found shown
  have kind := DeclarationForm.kind_of_ofBound? origin
  have each : ∀ b ∈ f.behaviors, b.origin = .classBody ↔ form.kind = .classBody := by
    intro b member
    rw [same] at member
    exact (DeclarationBody.origin_of_mem member).trans kind.symm
  obtain ⟨first, others, listed⟩ := List.exists_cons_of_ne_nil nonempty
  have whole : (f.behaviors.all (·.origin == .classBody)) = true ↔ form.kind = .classBody := by
    rw [List.all_eq_true]
    constructor
    · intro all
      exact (each first (by simp [listed])).mp (by simpa using all first (by simp [listed]))
    · intro isClass b member
      simpa using (each b member).mpr isClass
  simp only [declared, Option.map_some, Option.some.injEq, DeclarationForm.toDeclaration, ← whole,
    Extension.shapeOf]
  split <;> simp_all

end Shapes

namespace Extension

variable {f : SourceFile}

theorem terminated_eq (shape : ExtensionShape) (b : Behavior) (text : String) :
    terminated shape b.isClassField text = text ++ shape.mark b text := by
  cases shape with
  | classShape =>
    rw [terminated, ExtensionShape.mark]
    cases b.isClassField && !endsInSemicolon text
    · exact (String.append_empty).symm
    · rfl
  | objectShape => rfl

theorem wrapper_eq (shape : ExtensionShape) (exportName : String) (members : List String) :
    wrapper shape exportName members = shape.opening exportName
      ++ "\n\n".intercalate (members.map ("  " ++ ·)) ++ shape.closing := by
  cases shape <;> rfl

theorem sections_eq (kept retained : List String) (last : String) :
    "\n\n".intercalate ((if kept.isEmpty then [] else ["\n".intercalate kept])
      ++ (if retained.isEmpty then [] else ["\n\n".intercalate retained]) ++ [last]) =
      paragraph "\n" kept ++ paragraph "\n\n" retained ++ last := by
  unfold paragraph
  cases kept.isEmpty <;> cases retained.isEmpty <;>
    simp only [Bool.false_eq_true, ↓reduceIte, List.nil_append, List.cons_append,
      String.intercalate_cons_cons, String.intercalate_singleton, String.empty_append,
      String.append_empty, String.append_assoc]

section Occurrences

theorem isBoundary_separator {x : Char} (separator : x ∈ separators) :
    Text.isBoundary (some x) = true := by
  simp only [separators, List.mem_cons, List.not_mem_nil, or_false] at separator
  rcases separator with rfl | rfl | rfl <;> decide +kernel

theorem containsIdentifier_mark (shape : ExtensionShape) (b : Behavior) (text : String)
    {name : String} (plain : ∀ x ∈ name.toList, x ∉ separators) :
    Text.containsIdentifier (text ++ shape.mark b text) name =
      Text.containsIdentifier text name := by
  have ended (x : Char) (separator : x ∈ separators) :
      Text.containsIdentifier (text ++ String.singleton x) name =
        Text.containsIdentifier text name := by
    have absent : x ∉ name.toList := fun member => plain x member separator
    have empty : Text.containsIdentifier "" name = false := by
      simp [Text.containsIdentifier, Text.occursWholeFrom]
    rw [← String.append_empty (s := text ++ String.singleton x),
      Text.containsIdentifier_append absent (isBoundary_separator separator), empty, Bool.or_false]
  cases shape with
  | classShape =>
    rw [ExtensionShape.mark]
    cases b.isClassField && !endsInSemicolon text
    · exact congrArg (Text.containsIdentifier · name) String.append_empty
    · exact ended ';' (by decide)
  | objectShape => exact ended ',' (by decide)

-- What is put after and between the texts neither hides a name nor makes one.
theorem containsIdentifier_referenced (shape : ExtensionShape) (retained : List String)
    (behaviors : List Behavior) (textOf : Behavior → String) {name : String}
    (plain : ∀ x ∈ name.toList, x ∉ separators) :
    Text.containsIdentifier ("\n".intercalate retained ++ "\n" ++
      "\n".intercalate (behaviors.map fun b => textOf b ++ shape.mark b (textOf b))) name =
      occursIn (retained ++ behaviors.map textOf) name := by
  have absent : '\n' ∉ name.toList := fun member => plain _ member (by decide)
  have bounds := isBoundary_separator (x := '\n') (by decide)
  have joined := Text.containsIdentifier_intercalate absent bounds
  have newline : "\n" = String.singleton '\n' := rfl
  rw [newline, Text.containsIdentifier_append absent bounds, joined, joined, occursIn,
    List.any_append]
  simp only [List.any_map, Function.comp_def, containsIdentifier_mark shape _ _ plain]

end Occurrences

section Imports

variable {relocated : String → String} {occurs : String → Bool} {referenced : String}

theorem spelledBare_bareBindings (kept : List ImportBinding) :
    List.Forall₂ ImportBinding.SpelledBare (kept.filter fun b => !b.isNamed)
      (bareBindings kept) := by
  induction kept with
  | nil => exact .nil
  | cons b rest ih =>
    cases kind : b.imported with
    | defaultExport => simpa [bareBindings, ImportBinding.isNamed, kind] using ⟨.single kind, ih⟩
    | wholeModule => simpa [bareBindings, ImportBinding.isNamed, kind] using ⟨.whole kind, ih⟩
    | named name => simpa [bareBindings, ImportBinding.isNamed, kind] using ih

theorem spelledInside_namedBinding {b : ImportBinding} {name : String}
    (kind : b.imported = .named name) (marked : Bool) :
    b.SpelledInside marked (namedBinding marked name b) := by
  rw [namedBinding]
  by_cases same : name = b.localName
  · subst same
    simpa using ImportBinding.SpelledInside.same kind
  · simpa [same] using ImportBinding.SpelledInside.renamed kind same

theorem spelledInside_namedBindings (marked : Bool) (kept : List ImportBinding) :
    List.Forall₂ (ImportBinding.SpelledInside marked) (kept.filter ImportBinding.isNamed)
      (namedBindings marked kept) := by
  induction kept with
  | nil => exact .nil
  | cons b rest ih =>
    cases kind : b.imported with
    | defaultExport | wholeModule => simpa [namedBindings, ImportBinding.isNamed, kind] using ih
    | named name =>
      simpa [namedBindings, ImportBinding.isNamed, kind] using
        ⟨spelledInside_namedBinding kind marked, ih⟩

theorem lists_partialImport (marked : Bool) (kept : List ImportBinding) (specifier : String)
    (quote : Char) : Import.Lists marked kept specifier quote
      (partialImport marked kept specifier (String.singleton quote)) := by
  refine ⟨_, _, spelledBare_bareBindings kept, spelledInside_namedBindings marked kept, ?_⟩
  rw [← clauseText_eq]
  rfl

theorem keptImport_eq {i j : Cursor} {found : Import} (read : found.ReadAt i j)
    (isRead : found.IsRead (f.language == .typeScript)) (start : ⟨f.source.toList, 0⟩ ≤ i)
    (ij : i ≤ j)
    (same : ∀ b ∈ found.bindings,
      Text.containsIdentifier referenced b.localName = occurs b.localName) :
    ∃ text, keptImport f referenced relocated found =
        .ok (if found.isNeeded occurs then some text else none) ∧
      (found.isNeeded occurs = true → found.KeptAs f relocated occurs text) := by
  have used : (found.bindings.filter fun b => Text.containsIdentifier referenced b.localName) =
      found.bindings.filter fun b => occurs b.localName := List.filter_congr same
  have needed : found.isNeeded occurs =
      (found.isSideEffect || !(found.bindings.filter fun b => occurs b.localName).isEmpty) := by
    rw [Bool.eq_iff_iff]
    simp [Import.isNeeded, Import.isSideEffect, Import.locals]
  by_cases all : ∀ b ∈ found.bindings, occurs b.localName = true
  · obtain ⟨statement, replaced, at?, whole, respecified⟩ :=
      read.respecified start ij (relocated found.specifier)
    have filtered := List.filter_eq_self.mpr all
    refine ⟨replaced, ?_, fun _ => ⟨fun _ => ⟨statement, at?, respecified⟩, ?_⟩⟩
    · simp only [keptImport, used, needed, filtered, whole, Import.isSideEffect, beq_self_eq_true,
        if_true]
      cases found.bindings.isEmpty <;> rfl
    · rintro ⟨b, member, missing⟩
      simp [all b member] at missing
  · have fewer : (found.bindings.filter fun b => occurs b.localName).length ≠
        found.bindings.length := by
      rwa [ne_eq, List.length_filter_eq_length_iff]
    obtain ⟨q, quoted⟩ := read.quote start
    refine ⟨_, ?_, fun need => ⟨fun held => absurd held all, fun _ =>
      ⟨q, quoted, lists_partialImport _ _ _ q, fun readable string => ?_⟩⟩⟩
    · simp only [keptImport, used, needed, beq_iff_eq, fewer, if_false, quoted.2, Option.getD_some]
      cases found.isSideEffect <;>
        cases (found.bindings.filter fun b => occurs b.localName).isEmpty <;> rfl
    · have some_ : (found.bindings.filter fun b => occurs b.localName) ≠ [] := by
        intro none
        have bare : found.bindings = [] := by simpa [needed, none, Import.isSideEffect] using need
        simp [bare] at fewer
      exact readAs_partialImport isRead List.filter_sublist some_ readable string

theorem mapM_keptImport {imports : List Import} {c d : Cursor} (start : ⟨f.source.toList, 0⟩ ≤ c)
    (order : InOrder Import.ReadAt c imports d)
    (isRead : ∀ i ∈ imports, i.IsRead (f.language == .typeScript))
    (same : ∀ i ∈ imports, ∀ b ∈ i.bindings,
      Text.containsIdentifier referenced b.localName = occurs b.localName) :
    ∃ texts, imports.mapM (keptImport f referenced relocated) = .ok texts ∧
      List.Forall₂ (Import.KeptAs f relocated occurs) (imports.filter (Import.isNeeded occurs))
        (texts.filterMap id) := by
  induction imports generalizing c with
  | nil => exact ⟨[], rfl, .nil⟩
  | cons found rest ih =>
    obtain ⟨i, j, ci, ij, read, later⟩ := order
    obtain ⟨text, made, kept⟩ := keptImport_eq read (isRead found List.mem_cons_self)
      (start.trans ci) ij (same found List.mem_cons_self)
    obtain ⟨texts, others, each⟩ := ih (start.trans (ci.trans ij)) later
      (fun i member => isRead i (List.mem_cons_of_mem _ member))
      fun i member => same i (List.mem_cons_of_mem _ member)
    refine ⟨_, by rw [List.mapM_cons, made, others]; rfl, ?_⟩
    cases needed : found.isNeeded occurs with
    | true => simpa [needed] using And.intro (kept needed) each
    | false => simpa [needed] using each

end Imports

section Build

variable {path : Path} {source : String}

theorem mapM_eq_ok {α β ε : Type} {make : α → Except ε β} {value : α → β} {as : List α}
    (each : ∀ a ∈ as, make a = .ok (value a)) : as.mapM make = .ok (as.map value) := by
  induction as with
  | nil => rfl
  | cons a rest ih =>
    rw [List.forall_mem_cons] at each
    rw [List.mapM_cons, each.1, ih each.2]
    rfl

theorem memberText_eq (read : SourceFile.read path source = .ok f) (shape : ExtensionShape) :
    ∀ b ∈ f.behaviors, memberText f shape b =
      .ok (f.textOf b.span ++ shape.mark b (f.textOf b.span)) := by
  intro b member
  simp only [memberText, SourceFile.textAt?_behavior read member, terminated_eq]

theorem retainedText_eq (read : SourceFile.read path source = .ok f) :
    ∀ span ∈ f.retained, retainedText f span = .ok (f.textOf span) := by
  intro span member
  simp only [retainedText, SourceFile.textAt?_retained read member]

theorem build?_madeOf (read : SourceFile.read path source = .ok f) (nonempty : f.behaviors ≠ [])
    (entity : String) (target : Option Path) (mappings : List ImportMapping) :
    ∃ e imports, build? f entity target mappings = .ok (some e) ∧
      e.exportName = extensionExportName entity ∧
      e.MadeOf f (fun specifier => (relocate mappings specifier (some f.path) target).1) imports
        (f.retained.map f.textOf) (f.behaviors.map fun b => f.textOf b.span) := by
  obtain ⟨stop, order⟩ := SourceFile.imports_inOrder read
  have hasBehavior : f.hasBehavior = true := by simp [SourceFile.hasBehavior, nonempty]
  have members := mapM_eq_ok (memberText_eq read (shapeOf f.behaviors))
  have retained := mapM_eq_ok (retainedText_eq read)
  have names : ∀ i ∈ f.imports, ∀ b ∈ i.bindings, b.HasPlainName := by
    intro i member
    obtain ⟨_, _, -, -, -, place⟩ := order.of_mem member
    exact place.names
  obtain ⟨texts, imports, each⟩ := @mapM_keptImport f
    (fun specifier => (relocate mappings specifier (some f.path) target).1) _ _ _ _ _ le_rfl order
    (SourceFile.isRead_of_mem_imports read) fun i member b bound =>
      containsIdentifier_referenced (shapeOf f.behaviors) (f.retained.map f.textOf) f.behaviors
        (fun b => f.textOf b.span) (names i member b bound)
  have built : build? f entity target mappings = .ok (some {
      code := paragraph "\n" (texts.filterMap id) ++ paragraph "\n\n" (f.retained.map f.textOf)
        ++ wrapper (shapeOf f.behaviors) (extensionExportName entity) (f.behaviors.map fun b =>
          f.textOf b.span ++ (shapeOf f.behaviors).mark b (f.textOf b.span))
      exportName := extensionExportName entity
      shape := shapeOf f.behaviors }) := by
    rw [← sections_eq]
    unfold build?
    simp only [hasBehavior, Bool.not_true, Bool.false_eq_true, if_false, members, retained,
      bind, Except.bind, imports]
    rfl
  refine ⟨_, texts.filterMap id, built, rfl, ?_, ?_, each, ?_, ?_⟩
  · simp only [List.map_map]
    exact List.map_congr_left fun span member => SourceFile.textAt?_retained read member
  · simp only [List.map_map]
    exact List.map_congr_left fun b member => SourceFile.textAt?_behavior read member
  · exact SourceFile.shapeOf_behaviors read nonempty
  · rw [wrapper_eq, List.zipWith_map_right, List.zipWith_self, List.map_map]
    simp only [Function.comp_def, String.append_assoc]

theorem build?_eq_none (absent : f.behaviors = []) (entity : String) (target : Option Path)
    (mappings : List ImportMapping) : build? f entity target mappings = .ok none := by
  simp [build?, SourceFile.hasBehavior, absent]
  rfl

end Build

end Extension

section Runs

variable {path : Path} {source : String} {f : SourceFile}

theorem Project.planDeclared_quiet (project : Project) (read : SourceFile.read path source = .ok f)
    (role : Role) (declaration : Declaration) :
    (project.planDeclared f role declaration).diagnostics = [] := by
  simp only [planDeclared, extensionOf]
  by_cases absent : f.behaviors = []
  · rw [Extension.build?_eq_none absent]
  · obtain ⟨e, imports, built, -⟩ := Extension.build?_madeOf read absent _ _ _
    rw [built]

theorem Context.exists_read_of_parsed {ctx : Context} {d : Disk} {p : Path}
    (found : (ctx.prepare d).loaded.parsed.get? p = some f) :
    ∃ path source, SourceFile.read path source = .ok f := by
  rw [(ctx.prepare_reads d).parsed] at found
  obtain ⟨q, -, loaded⟩ := Option.bind_eq_some_iff.mp found
  have loaded := loadSource_toOption_eq_some.mp loaded
  unfold loadSource at loaded
  split at loaded
  next => cases loaded
  next text _ =>
    split at loaded
    next read =>
      cases loaded
      exact ⟨q, text, read⟩
    next => cases loaded

theorem Context.prepare_code? {ctx : Context} {d : Disk} {m : Diagnostic}
    (told : m ∈ (ctx.prepare d).diagnostics) : (m.code? == some extensionFailed) = false := by
  rcases prepare_code_cases told with ⟨p, -, rfl⟩ | ⟨code, early, same⟩
  · rfl
  · have other : ∀ code ∈ earlyCodes, (some code == some extensionFailed) = false := by decide
    rw [same]
    exact other code early

theorem migrate_code? (ctx : Context) (d : Disk) :
    ∀ m ∈ (migrate ctx d).2.diagnostics, m.code? ≠ some extensionFailed := by
  intro m told
  rw [migrate_eq_visits] at told
  have told : m ∈ (ctx.lastState d).diagnostics := List.mem_mergeSort.mp told
  rw [Context.lastState_diagnostics, List.mem_append, List.mem_flatMap] at told
  rcases told with early | ⟨v, member, told⟩
  · simpa using Context.prepare_code? early
  have judged := ctx.judged_visit member
  rw [Visit.told] at told
  generalize v.verdict ctx (ctx.prepare d) = verdict at judged told
  cases judged with
  | unread => cases told
  | unconnected | undeclared =>
    rw [List.mem_singleton.mp told]
    simp [Diagnostic.code?]
  | generate found =>
    obtain ⟨path, source, read⟩ := Context.exists_read_of_parsed found
    simp only [Project.planDeclared_quiet _ read, List.nil_append] at told
    obtain ⟨a, e, rfl⟩ := mem_faultsOf told
    simp [RunState.writeDiagnostic, Diagnostic.code?, writeFailed, extensionFailed]

end Runs

def Span.Precedes (a b : Span) : Prop :=
  a.stop ≤ b.start

theorem extension_keeps_behavior {path : Path} {source : String} {f : SourceFile}
    (read : SourceFile.read path source = .ok f) (entity : String) (target : Option Path)
    (mappings : List ImportMapping) :
    (∃ e?, Extension.build? f entity target mappings = .ok e? ∧ (e? = none ↔ f.behaviors = []) ∧
      ∀ e ∈ e?, e.exportName = extensionExportName entity ∧ ∃ imports retained members,
        e.MadeOf f (fun specifier => (relocate mappings specifier (some f.path) target).1)
          imports retained members) ∧
    (f.imports.map Import.statement).Pairwise Span.Precedes ∧
    f.retained.Pairwise Span.Precedes ∧
    (f.behaviors.map Behavior.span).Pairwise Span.Precedes ∧
    (∀ text name : String, name ≠ "" →
      (∀ c ∈ name.toList, Character.isIdentifierChar c = true) →
      (Text.containsIdentifier text name = true ↔ Text.OccursWhole text.toList name.toList)) ∧
    ∀ ctx d, ∀ m ∈ (migrate ctx d).2.diagnostics, m.code? ≠ some extensionFailed := by
  refine ⟨?_, ?_, ?_, ?_, fun _ _ => Text.containsIdentifier_iff, migrate_code?⟩
  · by_cases absent : f.behaviors = []
    · exact ⟨none, Extension.build?_eq_none absent _ _ _, by simp [absent], nofun⟩
    · obtain ⟨e, imports, built, named, made⟩ :=
        Extension.build?_madeOf read absent entity target mappings
      refine ⟨some e, built, by simp [absent], ?_⟩
      rintro _ ⟨⟩
      exact ⟨named, imports, _, _, made⟩
  · obtain ⟨stop, order⟩ := SourceFile.imports_inOrder read
    exact List.pairwise_map.mpr (order.pairwise _ fun _ _ _ place => place.statement)
  · obtain ⟨stop, order⟩ := SourceFile.retained_inOrder read
    exact order.pairwise id fun _ _ _ place => place
  · obtain ⟨c, stop, -, order⟩ := SourceFile.behaviors_inOrder read
    exact List.pairwise_map.mpr (order.pairwise _ fun _ _ _ place => place)

def accentedSource : String :=
  "import Café, \x7b thé \x7d from './carte';\nlet prix;\n" ++
    "export default class User extends Café \x7b\n  // l'été\n  boisson = thé\n\x7d\n"

theorem extension_keeps_behavior_accented :
    ∃ f, SourceFile.read ⟨"app/models/user.js"⟩ accentedSource = .ok f ∧ f.behaviors.length = 1 ∧
      ∃ e, Extension.build? f "user" none [] = .ok (some e) ∧ ∃ imports retained members,
        e.MadeOf f (fun specifier => (relocate [] specifier (some f.path) none).1)
          imports retained members := by
  obtain ⟨f, read, one⟩ := SourceFile.exists_of_any (by decide +kernel :
    (SourceFile.read ⟨"app/models/user.js"⟩ accentedSource).toOption.any
      (fun f => f.behaviors.length == 1) = true)
  have count : f.behaviors.length = 1 := by simpa using one
  obtain ⟨⟨e?, built, absent, made⟩, -⟩ := extension_keeps_behavior read "user" none []
  cases e? with
  | none => simp [absent.mp rfl] at count
  | some e => exact ⟨f, read, count, e, built, (made e rfl).2⟩

end SchemaMigration
