import SchemaMigration.Proofs.Reading
import SchemaMigration.Source.Program

set_option autoImplicit false

namespace SchemaMigration.Source

def Expr.isAtom : Expr → Bool
  | .identifier _ | .null _ | .boolean .. | .access .. | .target _ | .other _ => true
  | _ => false

-- A property of what stands between two cursors that goes over from parts to the whole.
structure Expr.PassedOn (Told : Cursor → Expr → Cursor → Prop) : Prop where
  widen {c d : Cursor} {e : Expr} (told : Told c e d) {b f : Cursor} (left : b ≤ c)
    (right : d ≤ f) : Told b e f
  atom {c d : Cursor} {e : Expr} (isAtom : e.isAtom = true) : Told c e d
  call {c d : Cursor} {lexeme : Lexeme} {callee : Expr} {arguments : List Expr}
    (each : ∀ a ∈ arguments, Told c a d) : Told c (.call lexeme callee arguments) d
  parenthesized {c d : Cursor} {lexeme : Lexeme} {inner : Expr} (told : Told c inner d) :
    Told c (.parenthesized lexeme inner) d

theorem Expr.PassedOn.pieces {Told : Cursor → Expr → Cursor → Prop} (passed : Expr.PassedOn Told)
    {c d : Cursor} (pieces : List Lexeme) : ∀ a ∈ pieces.map Expr.other, Told c a d := by
  intro a member
  obtain ⟨piece, -, rfl⟩ := List.mem_map.mp member
  exact passed.atom rfl

namespace Grammar

open Source.Parser

variable {g : Grammar}

section Lists

theorem ensures_separatedLoosely {α : Type} {item : Parser α} {Read : Cursor → α → Cursor → Prop}
    (each : ∀ c, item.Ensures c fun a d => Read c a d) (close : String) (c : Cursor) :
    (g.separatedLoosely close item).Ensures c fun as d => InOrder Read c as d := by
  unfold separatedLoosely
  refine (@ensures_repeatedly _ _ Read id _ (fun c => ?_) _ c).bind fun items d _ order =>
    ensures_bind fun _ e de => ensures_pure (order.widen le_rfl de)
  refine ensures_bind fun _ m cm => ?_
  split
  · exact ensures_pure (by rintro _ ⟨⟩)
  · refine ensures_bind fun _ m' mm' => ?_
    split
    · exact ensures_bind fun _ _ _ => ensures_pure (by rintro _ ⟨⟩ _ ⟨⟩)
    · refine (each m').bind fun a d md read => ?_
      refine ensures_bind fun _ d₁ dd₁ => ensures_bind fun _ d₂ dd₂ =>
        ensures_bind fun _ e de => ensures_pure ?_
      rintro _ ⟨⟩ _ ⟨⟩
      exact ⟨m', d, cm.trans mm', md, dd₁.trans (dd₂.trans de), read⟩

theorem ensures_spread (c : Cursor) :
    g.spread.Ensures c fun e d => ∃ i, c ≤ i ∧ i ≤ d ∧ e = .other (i.lexemeTo d) := by
  unfold spread
  refine (ensures_extent _ c).bind ?_
  rintro _ d - ⟨i, ci, id, rfl⟩
  exact ensures_pure ⟨i, ci, id, rfl⟩

end Lists

section ObjectMembers

variable {Read : Cursor → ObjectMember → Cursor → Prop}
  (comments : ∀ i d, Read i (.comment (i.lexemeTo d)) d)
  (each : ∀ c, g.objectMember.Ensures c fun m d => ∃ i, c ≤ i ∧ i ≤ d ∧ Read i m d)

include comments each

theorem ensures_objectItem (c : Cursor) :
    g.objectItem.Ensures c fun item? d => ∀ item ∈ item?, ∀ m ∈ item,
      ∃ i j, c ≤ i ∧ i ≤ j ∧ j ≤ d ∧ Read i m j := by
  unfold objectItem
  refine ensures_bind fun _ m cm => ensures_here ?_
  split
  · exact ensures_pure nofun
  · exact ensures_bind fun _ _ _ => ensures_pure (by rintro _ ⟨⟩ _ ⟨⟩)
  · split
    · refine (ensures_comment m).bind ?_
      rintro _ d - ⟨i, mi, id, rfl⟩
      refine ensures_pure ?_
      rintro _ ⟨⟩ _ ⟨⟩
      exact ⟨i, d, cm.trans mi, id, le_rfl, comments i d⟩
    · refine (each m).bind ?_
      rintro member d - ⟨i, mi, id, read⟩
      refine ensures_bind fun _ d₁ dd₁ => ensures_bind fun _ d₂ dd₂ => ensures_guard fun _ => ?_
      refine ensures_pure ?_
      rintro _ ⟨⟩ _ ⟨⟩
      exact ⟨i, d, cm.trans mi, id, dd₁.trans dd₂, read⟩

theorem ensures_objectLiteral (c : Cursor) :
    g.objectLiteral.Ensures c fun e d =>
      ∃ lexeme members, e = .object lexeme members ∧ InOrder Read c members d := by
  unfold objectLiteral
  refine ensures_located (InOrder Read) (fun i _ => ?_) fun members i d ci _ order =>
    ensures_pure ⟨_, members, rfl, order.widen ci le_rfl⟩
  refine ensures_bind fun _ m im => ?_
  refine (ensures_repeatedly (ensures_objectItem comments each) _ m).bind fun items d _ order => ?_
  exact ensures_bind fun _ e de => ensures_pure (order.widen im de)

end ObjectMembers

section ClassMembers

variable {Read : Cursor → ClassMember → Cursor → Prop}
  (comments : ∀ i d, Read i (.comment (i.lexemeTo d)) d)
  (each : ∀ c, g.classMember.Ensures c fun m d => ∃ i, c ≤ i ∧ i ≤ d ∧ Read i m d)

include comments each

theorem ensures_classItem (c : Cursor) :
    g.classItem.Ensures c fun piece? d => ∀ piece ∈ piece?, ∀ m ∈ piece.member?,
      ∃ i j, c ≤ i ∧ i ≤ j ∧ j ≤ d ∧ Read i m j := by
  unfold classItem
  refine ensures_bind fun _ m cm => ensures_here ?_
  split
  · exact ensures_pure nofun
  · exact ensures_bind fun _ _ _ => ensures_pure (by rintro _ ⟨⟩ _ ⟨⟩)
  · split
    · exact ensures_bind fun _ _ _ => ensures_pure (by rintro _ ⟨⟩ _ ⟨⟩)
    · split
      · refine (ensures_comment m).bind ?_
        rintro _ d - ⟨i, mi, id, rfl⟩
        refine ensures_pure ?_
        rintro _ ⟨⟩ _ ⟨⟩
        exact ⟨i, d, cm.trans mi, id, le_rfl, comments i d⟩
      · refine (each m).bind ?_
        rintro member d - ⟨i, mi, id, read⟩
        refine ensures_pure ?_
        rintro _ ⟨⟩ _ ⟨⟩
        exact ⟨i, d, cm.trans mi, id, le_rfl, read⟩

theorem ensures_classBody (c : Cursor) :
    g.classBody.Ensures c fun members d => InOrder Read c members d := by
  unfold classBody
  refine ensures_bind fun _ m cm => ?_
  refine (ensures_repeatedly (ensures_classItem comments each) _ m).bind fun items d _ order => ?_
  exact ensures_bind fun _ d' dd' => ensures_bind fun _ e de =>
    ensures_pure (order.widen cm (dd'.trans de))

theorem ensures_classRest (named : Bool) (c : Cursor) :
    (g.classRest named).Ensures c fun definition d => InOrder Read c definition.members d := by
  unfold classRest
  refine ensures_bind fun _ c₁ le₁ => ensures_bind fun _ c₂ le₂ => ?_
  refine (ensures_true _ c₂).either (ensures_true _ c₂) fun _ c₃ le₃ _ => ?_
  refine ensures_bind fun _ c₄ le₄ => ensures_bind fun _ c₅ le₅ => ensures_bind fun _ c₆ le₆ => ?_
  refine (ensures_classBody comments each c₆).bind fun members d _ order => ensures_pure ?_
  exact order.widen (le₁.trans (le₂.trans (le₃.trans (le₄.trans (le₅.trans le₆))))) le_rfl

theorem ensures_classLiteral (c : Cursor) :
    g.classLiteral.Ensures c fun e d =>
      ∃ lexeme definition, e = .classLiteral lexeme definition ∧
        InOrder Read c definition.members d := by
  unfold classLiteral
  refine ensures_located (fun i definition d => InOrder Read i definition.members d)
    (fun i _ => ?_) fun definition i d ci _ order =>
      ensures_pure ⟨_, definition, rfl, order.widen ci le_rfl⟩
  exact ensures_bind fun _ m im => (ensures_classRest comments each false m).mono
    fun definition d _ order => order.widen im le_rfl

end ClassMembers

variable {Told : Cursor → Expr → Cursor → Prop}

def Reads (g : Grammar) (Told : Cursor → Expr → Cursor → Prop) : Prop :=
  ∀ breaks c, (g.expression breaks).Ensures c (Told c)

structure ReadsLiterals (g : Grammar) (Told : Cursor → Expr → Cursor → Prop) : Prop where
  string (c : Cursor) : (token stringLength?).Ensures c fun l d => Told c (.string l) d
  template (c : Cursor) : g.template.Ensures c fun read d => Told c (.template read.1) d
  number (c : Cursor) : (token numberLength?).Ensures c fun l d => Told c (.number l) d
  array (c : Cursor) : g.arrayLiteral.Ensures c (Told c)
  object (c : Cursor) : g.objectLiteral.Ensures c (Told c)
  classLiteral (c : Cursor) : g.classLiteral.Ensures c (Told c)

section Parts

variable (passed : Expr.PassedOn Told)

include passed

theorem ensures_atom {α : Type} {p : Parser α} {make : α → Expr}
    {b c : Cursor} (isAtom : ∀ a, (make a).isAtom = true) :
    (do return make (← p) : Parser Expr).Ensures c (Told b) :=
  ensures_bind fun a _ _ => ensures_pure (passed.atom (isAtom a))

theorem ensures_sequence (reads : g.Reads Told) (breaks : Bool)
    (c : Cursor) : (g.sequence breaks).Ensures c (Told c) := by
  unfold sequence
  refine ensures_located (fun i r d => Told i r.1 d) (fun i _ => ?_) ?_
  · refine (reads breaks i).bind fun first m _ told => ?_
    exact ensures_bind fun more d md => ensures_pure (passed.widen told le_rfl md)
  · rintro ⟨first, more⟩ i d ci - told
    refine ensures_pure ?_
    split
    · exact passed.widen told ci le_rfl
    · exact passed.atom rfl

theorem ensures_items (reads : g.Reads Told) (close : String)
    (c : Cursor) :
    (g.separatedLoosely close (g.spread <|> g.expression false)).Ensures c fun as d =>
      ∀ a ∈ as, Told c a d := by
  have each (c : Cursor) : (g.spread <|> g.expression false).Ensures c (Told c) :=
    Ensures.orElse (ensures_atom passed fun _ => rfl) (reads false c)
  refine (ensures_separatedLoosely each close c).mono fun as d _ order a member => ?_
  obtain ⟨i, j, ci, -, jd, told⟩ := order.of_mem member
  exact passed.widen told ci jd

theorem ensures_arguments (reads : g.Reads Told) (c : Cursor) :
    g.arguments.Ensures c fun as d => ∀ a ∈ as, Told c a d :=
  ensures_bind fun _ m cm => (ensures_items passed reads ")" m).mono fun _ _ _ each a member =>
    passed.widen (each a member) cm le_rfl

end Parts

section Values

variable (passed : Expr.PassedOn Told)

include passed

theorem ensures_bracketed {literal : Parser Expr} {c : Cursor}
    (reads : literal.Ensures c (Told c)) : (g.bracketed literal).Ensures c (Told c) := by
  refine reads.orElse (ensures_bind fun _ _ _ => ensures_bind fun _ _ _ => ?_)
  exact ensures_guard fun _ => ensures_pure (passed.atom rfl)

theorem ensures_parentheses (reads : g.Reads Told) (c : Cursor) :
    g.parentheses.Ensures c (Told c) := by
  unfold parentheses
  refine ensures_located Told (fun i _ => ?_) fun inner i d ci _ told =>
    ensures_pure (passed.parenthesized (passed.widen told ci le_rfl))
  refine ensures_bind fun _ c₁ le₁ => ensures_bind fun hidden c₂ le₂ => ?_
  refine (ensures_sequence passed reads false c₂).bind fun inner c₃ _ told => ?_
  refine ensures_bind fun _ c₄ le₄ => ensures_bind fun _ d le₅ => ensures_pure ?_
  cases hidden with
  | none => exact passed.widen told (le₁.trans le₂) (le₄.trans le₅)
  | some lexeme => exact passed.atom rfl

theorem ensures_wordValue (literals : g.ReadsLiterals Told)
    (c : Cursor) : g.wordValue.Ensures c (Told c) := by
  unfold wordValue
  refine ensures_bind fun name m cm => ?_
  refine Ensures.ite (ensures_atom passed fun _ => rfl) ?_
  refine Ensures.ite (ensures_atom passed fun _ => rfl) ?_
  refine Ensures.ite ?_ ?_
  · exact (literals.classLiteral m).mono fun e d _ told => passed.widen told cm le_rfl
  refine Ensures.ite (ensures_atom passed fun _ => rfl) ?_
  refine Ensures.ite (ensures_atom passed fun _ => rfl) ?_
  exact ensures_guard fun _ => ensures_atom passed fun _ => rfl

theorem ensures_primary (literals : g.ReadsLiterals Told)
    (reads : g.Reads Told) (breaks : Bool) (c : Cursor) :
    (g.primary breaks).Ensures c (Told c) := by
  unfold primary
  refine ensures_bind fun s m cm => ?_
  have wide {p : Parser Expr} (told : p.Ensures m (Told m)) : p.Ensures m (Told c) :=
    told.mono fun e d _ told => passed.widen told cm le_rfl
  have arrow : (g.arrowOrFunction breaks).Ensures m (Told m) := ensures_atom passed fun _ => rfl
  cases s with
  | nil => exact ensures_failure
  | cons first rest =>
    refine Ensures.ite (wide ((literals.string m).bind fun _ _ _ => ensures_pure)) ?_
    refine Ensures.ite (wide ((literals.template m).bind fun _ _ _ => ensures_pure)) ?_
    refine Ensures.ite (wide ((literals.number m).bind fun _ _ _ => ensures_pure)) ?_
    refine Ensures.ite (ensures_atom passed fun _ => rfl) ?_
    refine Ensures.ite (wide (ensures_bracketed passed (literals.array m))) ?_
    refine Ensures.ite (wide (ensures_bracketed passed (literals.object m))) ?_
    refine Ensures.ite (wide (arrow.orElse (ensures_parentheses passed reads m))) ?_
    refine Ensures.ite ?_ ?_
    · exact ensures_bind fun _ _ _ => ensures_bind fun _ _ _ => ensures_guard fun _ =>
        ensures_pure (passed.atom rfl)
    refine Ensures.ite (wide (literals.classLiteral m)) ?_
    refine Ensures.ite (Ensures.ite (wide arrow) (ensures_atom passed fun _ => rfl)) ?_
    exact wide (arrow.orElse (ensures_wordValue passed literals m))

end Values

section Steps

theorem ensures_chainStep (breaks : Bool) (start : Cursor) (chain : Chain) (c : Cursor) :
    (g.chainStep breaks start chain).Ensures c fun chain _ => chain.whole.isAtom = true := by
  unfold chainStep
  refine ensures_bind fun mark _ _ => ensures_bind fun name m _ => ?_
  refine Ensures.ite ?_ (Ensures.ite ?_ (Ensures.ite ?_ ?_))
  · refine (ensures_true _ m).either (ensures_true _ m) fun _ _ _ _ => ?_
    exact ensures_bind fun _ _ _ => ensures_here (ensures_bind fun _ _ _ =>
      ensures_here (ensures_pure rfl))
  · refine ensures_bind fun _ _ _ => ensures_bind fun _ m _ => ?_
    exact (ensures_true _ m).either (ensures_true _ m) fun _ _ _ _ =>
      ensures_here (ensures_pure rfl)
  · exact ensures_bind fun _ _ _ => ensures_bind fun _ _ _ => ensures_bind fun _ _ _ =>
      ensures_here (ensures_pure rfl)
  · exact ensures_bind fun _ _ _ => ensures_guard fun _ => ensures_bind fun _ _ _ =>
      ensures_bind fun _ _ _ => ensures_here (ensures_pure rfl)

variable {start c : Cursor} (passed : Expr.PassedOn Told)

include passed

theorem ensures_placeOrCall (reads : g.Reads Told) (calls : Bool)
    (value : Expr) (le : start ≤ c) :
    (g.placeOrCall start calls value).Ensures c (Told start) := by
  unfold placeOrCall
  refine ensures_bind fun mark c₁ le₁ => ensures_if fun c₂ le₂ => ?_
  refine ensures_bind fun _ c₃ le₃ => ?_
  split
  · refine ensures_guard fun _ => (ensures_arguments passed reads c₃).bind fun _ d _ each => ?_
    refine ensures_here (ensures_pure (passed.call fun a member => ?_))
    exact passed.widen (each a member) (le.trans (le₁.trans (le₂.trans le₃))) le_rfl
  refine ensures_bind fun _ _ _ => ?_
  split
  · exact ensures_bind fun _ _ _ => ensures_bind fun _ _ _ => ensures_bind fun _ _ _ =>
      ensures_here (ensures_pure (passed.atom rfl))
  split
  · exact ensures_if fun _ _ => ensures_bind fun _ _ _ =>
      ensures_here (ensures_pure (passed.atom rfl))
  refine ensures_bind fun _ _ _ => ?_
  split
  · exact ensures_bind fun _ _ _ => ensures_here (ensures_pure (passed.call (passed.pieces _)))
  · exact ensures_failure

theorem ensures_typedStep (reads : g.Reads Told) (calls : Bool)
    (value : Expr) (le : start ≤ c) :
    (g.typedStep start calls value).Ensures c (Told start) := by
  unfold typedStep
  refine ensures_guard fun _ => ensures_bind fun _ c₁ le₁ => ?_
  split
  · exact ensures_bind fun _ _ _ => ensures_here (ensures_pure (passed.atom rfl))
  refine ensures_bind fun _ c₂ le₂ => ensures_bind fun _ c₃ le₃ => ?_
  split
  · refine (ensures_arguments passed reads c₃).bind fun _ d _ each => ?_
    refine ensures_here (ensures_pure (passed.call fun a member => ?_))
    exact passed.widen (each a member) (le.trans (le₁.trans (le₂.trans le₃))) le_rfl
  refine ensures_bind fun _ _ _ => ?_
  split
  · exact ensures_bind fun _ _ _ => ensures_here (ensures_pure (passed.call (passed.pieces _)))
  · exact ensures_bind fun _ _ _ => ensures_bind fun _ _ _ => ensures_bind fun _ _ _ =>
      ensures_here (ensures_pure (passed.atom rfl))

theorem ensures_steps (reads : g.Reads Told) (breaks calls : Bool)
    {value : Expr} (le : start ≤ c) (told : Told start value c) :
    (g.steps breaks calls start value).Ensures c (Told start) := by
  refine @ensures_growing _ (Told start) _ start (fun _ _ _ cd told =>
    passed.widen told le_rfl cd) ?_ _ _ c le told
  intro value c le _
  refine ensures_bind fun _ m cm => ?_
  split
  · exact ensures_pure nofun
  · have le := le.trans cm
    exact ((ensures_placeOrCall passed reads calls value le).orElse
      (ensures_typedStep passed reads calls value le)).optionally

theorem ensures_construction (breaks : Bool) (c : Cursor) :
    (g.construction breaks).Ensures c (Told c) := by
  unfold construction
  refine ensures_bind fun _ _ _ => ensures_here (ensures_bind fun _ _ _ => ?_)
  refine ensures_bind fun _ _ _ => ?_
  split
  · exact ensures_bind fun _ _ _ => ensures_bind fun _ _ _ => ensures_here
      (ensures_pure (passed.atom rfl))
  · refine ensures_bind fun _ _ _ => ensures_bind fun _ _ _ => ensures_here ?_
    exact ensures_bind fun _ _ _ => ensures_bind fun _ _ _ => ensures_bind fun _ _ _ =>
      ensures_here (ensures_pure (passed.atom rfl))

theorem ensures_countable (literals : g.ReadsLiterals Told)
    (reads : g.Reads Told) (breaks : Bool) (c : Cursor) :
    (g.countable breaks).Ensures c (Told c) := by
  unfold countable
  refine ensures_bind fun _ start le => ensures_here (ensures_bind fun _ m₁ le₁ => ?_)
  refine Ensures.either (ensures_construction passed breaks m₁)
    (ensures_primary passed literals reads breaks m₁) fun value m₂ le₂ told => ?_
  refine (ensures_steps passed reads breaks true (le₁.trans le₂)
    (passed.widen told le₁ le_rfl)).bind fun value m₃ le₃ told => ?_
  refine ensures_bind fun _ m₄ le₄ => ?_
  split
  · exact ensures_pure (passed.widen told le le₄)
  refine ensures_bind fun _ m₅ le₅ => ?_
  split
  · exact ensures_bind fun _ _ _ => ensures_here (ensures_pure (passed.atom rfl))
  · exact ensures_pure (passed.widen told le (le₄.trans le₅))

theorem ensures_operand (literals : g.ReadsLiterals Told)
    (reads : g.Reads Told) (breaks : Bool) (c : Cursor) :
    (g.operand breaks).Ensures c (Told c) := by
  unfold operand
  refine ensures_located (fun i r d => Told i r.2 d) (fun i _ => ?_) ?_
  · refine ensures_bind fun marks m im => ?_
    exact (ensures_countable passed literals reads breaks m).bind fun value d _ told =>
      ensures_pure (passed.widen told im le_rfl)
  · rintro ⟨marks, value⟩ i d ci - told
    refine ensures_pure ?_
    split
    · exact passed.widen told ci le_rfl
    · exact passed.atom rfl

theorem ensures_expressionRule (literals : g.ReadsLiterals Told)
    (reads : g.Reads Told) (breaks : Bool) (c : Cursor) :
    (g.expressionRule breaks).Ensures c (Told c) := by
  unfold expressionRule
  refine ensures_bind fun _ c₁ le₁ => ?_
  split
  · exact ensures_atom passed fun _ => rfl
  refine ensures_bind fun _ start le₂ => ensures_here ?_
  refine (ensures_operand passed literals reads breaks start).bind fun first m le₃ told => ?_
  refine (@ensures_growing _ (fun (chain : Chain) d => Told start chain.whole d) _ start ?_ ?_ _
    { whole := first, lastStart := start, last := first } m le₃ told).bind fun chain d _ told => ?_
  · exact fun _ _ _ cd told => passed.widen told le_rfl cd
  · intro chain c _ _
    refine ensures_bind fun _ _ _ => ?_
    split
    · exact ensures_pure nofun
    · exact ((ensures_chainStep breaks start chain _).mono fun _ _ _ => passed.atom).optionally
  · exact ensures_pure (passed.widen told (le₁.trans le₂) le_rfl)

end Steps

theorem nested_reads (passed : Expr.PassedOn Told)
    (literals : ∀ g : Grammar, g.Reads Told → g.ReadsLiterals Told) (language : Language)
    (bound depth : Nat) : (nested language bound depth).Reads Told := by
  induction depth with
  | zero => exact fun _ _ => ensures_failure
  | succ depth ih => exact ensures_expressionRule passed (literals _ ih) ih

end Grammar

end SchemaMigration.Source
