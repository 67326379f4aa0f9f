import SchemaMigration.Artifact.Descriptor
import SchemaMigration.Proofs.ReadOptions

set_option autoImplicit false

namespace SchemaMigration

namespace FieldOptions

variable {o other lower upper : FieldOptions} {key : String}

theorem keys_cons (entry : String × Literal) (rest : List (String × Literal)) :
    keys ⟨entry :: rest⟩ = entry.1 :: keys ⟨rest⟩ := rfl

theorem get?_cons (entry : String × Literal) (rest : List (String × Literal)) (name : String) :
    get? ⟨entry :: rest⟩ name = if name = entry.1 then some entry.2 else get? ⟨rest⟩ name := by
  rw [get?, List.lookup_cons]
  by_cases same : name = entry.1
  next => simp [same]
  next => simp [same, beq_eq_false_iff_ne.mpr same, get?]

theorem merge_cons (o : FieldOptions) (entry : String × Literal)
    (rest : List (String × Literal)) :
    o.merge ⟨entry :: rest⟩ = (o.insert entry.1 entry.2).merge ⟨rest⟩ := rfl

theorem get?_eq_none_iff : o.get? key = none ↔ key ∉ o.keys := by
  obtain ⟨entries⟩ := o
  induction entries with
  | nil => simp [get?, keys]
  | cons first rest ih =>
    rw [get?_cons, keys_cons, List.mem_cons, not_or, ← ih]
    by_cases same : key = first.1 <;> simp [same]

theorem get?_insert (o : FieldOptions) (key : String) (value : Literal) (name : String) :
    (o.insert key value).get? name = if name = key then some value else o.get? name := by
  obtain ⟨entries⟩ := o
  induction entries with
  | nil => exact get?_cons (key, value) [] name
  | cons first rest ih =>
    obtain ⟨k, v⟩ := first
    have step : insert ⟨(k, v) :: rest⟩ key value = if k = key then ⟨(k, value) :: rest⟩
        else ⟨(k, v) :: (insert ⟨rest⟩ key value).entries⟩ := by
      by_cases here : k = key <;> simp [insert, setEntry, here]
    rw [step, get?_cons]
    by_cases here : k = key
    next =>
      rw [if_pos here, get?_cons]
      by_cases same : name = key <;> simp [here, same]
    next =>
      rw [if_neg here, get?_cons, ih]
      by_cases found : name = k
      next => simp [found, here]
      next => simp [found]

theorem get?_merge (distinct : upper.keys.Nodup) (name : String) :
    (lower.merge upper).get? name = (upper.get? name).or (lower.get? name) := by
  obtain ⟨entries⟩ := upper
  induction entries generalizing lower with
  | nil => rfl
  | cons first rest ih =>
    obtain ⟨absent, later⟩ := List.nodup_cons.mp distinct
    rw [merge_cons, ih later, get?_insert, get?_cons]
    by_cases same : name = first.1
    next =>
      have unset : get? ⟨rest⟩ name = none := get?_eq_none_iff.mpr (same ▸ absent)
      rw [if_pos same, if_pos same, unset]
      rfl
    next => rw [if_neg same, if_neg same]

theorem keys_merge (distinct : upper.keys.Nodup) :
    (lower.merge upper).keys = lower.keys ++ upper.keys.filter (· ∉ lower.keys) := by
  obtain ⟨entries⟩ := upper
  induction entries generalizing lower with
  | nil => exact (List.append_nil _).symm
  | cons first rest ih =>
    obtain ⟨absent, later⟩ := List.nodup_cons.mp distinct
    have grown : (lower.insert first.1 first.2).keys =
        if first.1 ∈ lower.keys then lower.keys else lower.keys ++ [first.1] :=
      keys_setEntry first.1 first.2 lower.entries
    rw [merge_cons, ih later, grown, keys_cons]
    by_cases set : first.1 ∈ lower.keys
    next => rw [if_pos set, List.filter_cons_of_neg (by simpa using set)]
    next =>
      -- The other keys differ from this one, so they are tested as before.
      have others : ∀ name ∈ keys ⟨rest⟩,
          decide (name ∉ lower.keys ++ [first.1]) = decide (name ∉ lower.keys) := by
        intro name member
        have differs : name ≠ first.1 := fun same => absent (same ▸ member)
        simp [differs]
      rw [if_neg set, List.filter_congr others, List.filter_cons_of_pos (by simpa using set),
        List.append_assoc, List.singleton_append]

theorem eq_of_get? (distinct : o.keys.Nodup) (order : o.keys = other.keys)
    (values : ∀ name, o.get? name = other.get? name) : o = other := by
  obtain ⟨entries⟩ := o
  obtain ⟨entries'⟩ := other
  induction entries generalizing entries' with
  | nil => exact congrArg FieldOptions.mk (List.map_eq_nil_iff.mp order.symm).symm
  | cons first rest ih =>
    cases entries' with
    | nil => cases order
    | cons first' rest' =>
      rw [keys_cons] at distinct
      rw [keys_cons, keys_cons] at order
      obtain ⟨absent, later⟩ := List.nodup_cons.mp distinct
      obtain ⟨name, names⟩ := List.cons.inj order
      have own := values first.1
      rw [get?_cons, get?_cons, if_pos rfl, if_pos name] at own
      have first_eq : first = first' := Prod.ext name (Option.some.inj own)
      have rest_eq : (⟨rest⟩ : FieldOptions) = ⟨rest'⟩ := by
        refine ih later rest' names fun key => ?_
        by_cases same : key = first.1
        next =>
          have absent' : first.1 ∉ keys ⟨rest'⟩ := names ▸ absent
          rw [same, get?_eq_none_iff.mpr absent, get?_eq_none_iff.mpr absent']
        next =>
          have value := values key
          rwa [get?_cons, get?_cons, if_neg same, if_neg (name ▸ same)] at value
      rw [first_eq, FieldOptions.mk.inj rest_eq]

theorem merge_assoc {a b c : FieldOptions} (first : a.keys.Nodup) (second : b.keys.Nodup)
    (third : c.keys.Nodup) : (a.merge b).merge c = a.merge (b.merge c) := by
  have upper : (b.merge c).keys.Nodup := nodup_merge second c.entries
  have lower : (a.merge b).keys.Nodup := nodup_merge first b.entries
  apply eq_of_get? (nodup_merge lower c.entries)
  next =>
    have tested : ∀ name, decide (name ∉ a.keys ++ b.keys.filter (· ∉ a.keys)) =
        (decide (name ∉ a.keys) && decide (name ∉ b.keys)) := by
      intro name
      by_cases held : name ∈ a.keys <;> simp [held]
    rw [keys_merge third, keys_merge second, keys_merge upper, keys_merge third, List.filter_append,
      List.filter_filter, List.append_assoc]
    simp only [tested]
  next =>
    intro name
    rw [get?_merge third, get?_merge second, get?_merge upper, get?_merge third, Option.or_assoc]

structure IsLayered (lower upper whole : FieldOptions) : Prop where
  distinct : whole.keys.Nodup
  keys : whole.keys = lower.keys ++ upper.keys.filter (· ∉ lower.keys)
  get? : ∀ name, whole.get? name = (upper.get? name).or (lower.get? name)

theorem isLayered_merge (below : lower.keys.Nodup) (above : upper.keys.Nodup) :
    IsLayered lower upper (lower.merge upper) :=
  ⟨nodup_merge below upper.entries, keys_merge above, get?_merge above⟩

end FieldOptions

def FieldKind.extensions? : FieldKind → Option (String × Literal)
  | .attribute | .belongsTo | .hasMany => none
  | .fragment => some ("objectExtensions", .strings ["ember-object", "fragment"])
  | .fragmentArray | .array =>
    some ("arrayExtensions", .strings ["ember-object", "ember-array-like", "fragment-array"])

namespace Field

open FieldOptions

variable {f : Field}

theorem defaults_eq (kind : FieldKind) : kind.defaults = ⟨kind.extensions?.toList⟩ := by
  cases kind <;> rfl

theorem nodup_keys_defaults (kind : FieldKind) : kind.defaults.keys.Nodup := by
  cases kind <;> decide

theorem get?_defaults (kind : FieldKind) (name : String) (value : Literal) :
    kind.defaults.get? name = some value ↔ kind.extensions? = some (name, value) := by
  rw [defaults_eq]
  cases kind.extensions? with
  | none => simp [FieldOptions.get?]
  | some entry =>
    obtain ⟨key, held⟩ := entry
    rw [Option.toList_some, get?_cons]
    by_cases same : name = key
    next => simp [same]
    next => simp [same, Ne.symm same, FieldOptions.get?]

theorem get?_descriptor (f : Field) :
    f.descriptor.get? "options" =
      if f.allOptions.isEmpty then none else some f.allOptions.toLiteral := by
  rw [descriptor]
  cases f.descriptorType? <;> cases f.allOptions.isEmpty <;>
    simp [FieldOptions.get?, List.lookup_cons]

theorem isEmpty_allOptions (distinct : f.options.keys.Nodup) :
    f.allOptions.isEmpty = true ↔ f.options.entries = [] ∧ f.kind.extensions? = none := by
  have bare (o : FieldOptions) : o.entries = [] ↔ o.keys = [] := List.map_eq_nil_iff.symm
  have default : f.kind.defaults.keys = [] ↔ f.kind.extensions? = none := by
    rw [← bare, defaults_eq, Option.toList_eq_nil_iff]
  rw [FieldOptions.isEmpty, List.isEmpty_iff, bare, allOptions, keys_merge distinct, bare,
    List.append_eq_nil_iff, default, and_comm]
  refine and_congr_left fun none => ?_
  rw [default.mpr none]
  simp

structure DescribesOptions (f : Field) : Prop where
  absent : f.descriptor.get? "options" = none ↔
    f.options.entries = [] ∧ f.kind.extensions? = none
  present : ∀ value, f.descriptor.get? "options" = some value →
    ∃ options, value = .object options.entries ∧
      IsLayered ⟨f.kind.extensions?.toList⟩ f.options options ∧
      ∀ name own, options.get? name = some own ↔ f.options.get? name = some own ∨
        f.options.get? name = none ∧ f.kind.extensions? = some (name, own)

theorem describesOptions (distinct : f.options.keys.Nodup) : f.DescribesOptions := by
  constructor
  next =>
    rw [get?_descriptor, ← isEmpty_allOptions distinct]
    simp
  next =>
    intro value held
    rw [get?_descriptor] at held
    obtain ⟨-, ⟨⟩⟩ := Option.ite_none_left_eq_some.mp held
    have layered := isLayered_merge (nodup_keys_defaults f.kind) distinct
    refine ⟨f.allOptions, rfl, defaults_eq f.kind ▸ layered, ?_⟩
    intro name own
    rw [allOptions, layered.get?, Option.or_eq_some_iff, get?_defaults]

end Field

theorem options_layered :
    (∀ lower upper : FieldOptions, lower.keys.Nodup → upper.keys.Nodup →
      lower.IsLayered upper (lower.merge upper)) ∧
    (∀ a b c : FieldOptions, a.keys.Nodup → b.keys.Nodup → c.keys.Nodup →
      (a.merge b).merge c = a.merge (b.merge c)) ∧
    ∀ f : Field, f.options.keys.Nodup → f.DescribesOptions :=
  ⟨fun _ _ => FieldOptions.isLayered_merge, fun _ _ _ => FieldOptions.merge_assoc,
    fun _ => Field.describesOptions⟩

def taggedArray : Field where
  kind := .array
  name := "tags"
  type? := none
  options := ⟨[("defaultValue", .raw "() => []"), ("arrayExtensions", .strings ["custom"])]⟩

def taggedFragment : Field where
  kind := .fragment
  name := "address"
  type? := some "address"
  options := ⟨[("polymorphic", .bool true)]⟩

theorem options_layered_tagged :
    taggedArray.options.keys.Nodup ∧ taggedFragment.options.keys.Nodup ∧
      taggedArray.options.IsLayered taggedFragment.options
        (taggedArray.options.merge taggedFragment.options) ∧
      (taggedArray.options.merge taggedFragment.options).merge taggedArray.options =
        taggedArray.options.merge (taggedFragment.options.merge taggedArray.options) ∧
      taggedArray.DescribesOptions ∧ taggedFragment.DescribesOptions ∧
      taggedArray.descriptor.get? "options" =
        some (.object [("arrayExtensions", .strings ["custom"]),
          ("defaultValue", .raw "() => []")]) ∧
      taggedFragment.descriptor.get? "options" =
        some (.object [("objectExtensions", .strings ["ember-object", "fragment"]),
          ("polymorphic", .bool true)]) := by
  have first : taggedArray.options.keys.Nodup := by decide
  have second : taggedFragment.options.keys.Nodup := by decide
  obtain ⟨layered, grouped, described⟩ := options_layered
  exact ⟨first, second, layered _ _ first second, grouped _ _ _ first second first,
    described _ first, described _ second, rfl, rfl⟩

end SchemaMigration
