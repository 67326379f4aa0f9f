import SchemaMigration.Proofs.Composition

set_option autoImplicit false

namespace SchemaMigration

namespace Dependencies

theorem Settles.mem {deps : Dependencies} {n : Nat} {reached result : List Path} {p : Path}
    (settles : deps.Settles n reached result) (member : p ∈ result) :
    p ∈ reached ∨ ∃ entry ∈ deps, p ∈ entry.2 := by
  induction settles with
  | done => exact .inl member
  | round _ _ ih =>
    rcases ih member with inside | added
    · rcases List.mem_append.mp (Path.mem_of_mem_sortedSet inside) with old | new
      · exact .inl old
      · obtain ⟨source, -, target⟩ := List.mem_flatMap.mp (List.mem_of_mem_filter new)
        exact .inr (List.mem_flatMap.mp (mem_targets target))
    · exact .inr added

theorem mem_close {deps : Dependencies} {seed : List Path} {p : Path}
    (member : p ∈ deps.close seed) : p ∈ seed ∨ ∃ entry ∈ deps, p ∈ entry.2 := by
  obtain ⟨n, -, settles⟩ := deps.close_settles seed
  rcases settles.mem member with seeded | added
  · exact .inl (Path.mem_of_mem_sortedSet seeded)
  · exact .inr added

end Dependencies

namespace Context

variable {ctx : Context} {d : Disk}

theorem mem_edges {parsed : PathMap SourceFile} {targets : Path → SourceFile → List Path}
    (congr : ∀ p q f, (p == q) = true → targets p f = targets q f) {paths : List Path}
    {entry : Path × List Path} (member : entry ∈ edges parsed targets paths) :
    ∃ p f, entry.2 = targets p f := by
  have found : PathMap.get? (edges parsed targets paths) entry.1 = some entry.2 :=
    (PathMap.get?_eq_some_iff (edges_distinct parsed targets paths)).mpr ⟨entry.1, member, BEq.rfl⟩
  rw [get?_edges parsed targets congr] at found
  split at found
  · obtain ⟨f, -, chosen⟩ := Option.bind_eq_some_iff.mp found
    split at chosen
    · exact ⟨entry.1, f, (Option.some.inj chosen).symm⟩
    · cases chosen
  · cases found

theorem importedMixins_isCanonical (names : d.ProperNames) {mixins : List Path} {f : SourceFile}
    {p : Path} (member : p ∈ ctx.importedMixins d mixins f) : p.IsCanonical := by
  obtain ⟨i, -, resolved⟩ := List.mem_filterMap.mp (List.mem_of_mem_filter member)
  exact resolve?_isCanonical names.workingDirectory (Option.filter_eq_some_iff.mp resolved).1

theorem connected_isCanonical (names : d.ProperNames) {p : Path}
    (member : p ∈ (ctx.prepare d).graph.connected) : p.IsCanonical := by
  rcases Dependencies.mem_close member with seeded | ⟨entry, held, inside⟩
  · obtain ⟨entry, held, inside⟩ := List.mem_flatMap.mp seeded
    obtain ⟨-, f, targets⟩ := mem_edges (fun _ _ _ _ => rfl) held
    rw [targets] at inside
    rcases List.mem_append.mp (Path.mem_of_mem_sortedSet inside) with imported | named
    · exact importedMixins_isCanonical names imported
    · exact discover_isCanonical names (List.mem_append_right _ (List.mem_of_mem_filter named))
  · obtain ⟨q, f, targets⟩ :=
      mem_edges (fun _ _ f same => ctx.mixinTargets_congr d _ same f) held
    rw [targets] at inside
    exact importedMixins_isCanonical names
      (List.mem_of_mem_filter (Path.mem_of_mem_sortedSet inside))

end Context

theorem Prepared.boundMixin?_eq_some {prepared : Prepared} {ctx : Context} {d : Disk}
    {f : SourceFile} {name : String} {mixin : Path}
    (bound : prepared.boundMixin? ctx d f name = some mixin) :
    prepared.discovered.mixins.contains mixin = true ∧
      ∃ i ∈ f.imports, ctx.resolveMixin? d i.specifier f.path = some mixin := by
  obtain ⟨⟨i, binding⟩, found, kept⟩ := Option.bind_eq_some_iff.mp bound
  obtain ⟨resolved, known⟩ := Option.filter_eq_some_iff.mp kept
  obtain ⟨i', imported, same⟩ := List.exists_of_findSome?_eq_some found
  obtain ⟨_, _, equal⟩ := Option.map_eq_some_iff.mp same
  cases equal
  exact ⟨(Bool.and_eq_true_iff.mp known).1, i, imported, resolved⟩

structure ListedConnected (ctx : Context) (d : Disk) (mixin : Path) : Prop where
  connected : (ctx.prepare d).graph.connected.contains mixin = true
  shown : ∃ written, (written == mixin) = true ∧ (d.ProperNames → written = mixin) ∧
    ctx.display written ∈ (migrate ctx d).2.graph.connectedMixins

theorem Visit.Generates.boundMixin_connected {ctx : Context} {d : Disk} {v : Visit}
    {f : SourceFile} {declaration : Declaration} (generates : v.Generates ctx d f declaration)
    {name : String} {mixin : Path}
    (bound : (ctx.prepare d).boundMixin? ctx d f name = some mixin) :
    (ctx.prepare d).graph.connected.contains mixin = true := by
  obtain ⟨known, i, imported, resolved⟩ := Prepared.boundMixin?_eq_some bound
  obtain ⟨listed, member, same⟩ := List.contains_iff_exists_mem_beq.mp known
  have used := generates.isConnected member ⟨i, imported, mixin, resolved, same⟩
  rw [List.contains_congr same]
  exact used

theorem listedConnected {ctx : Context} {d : Disk} {mixin : Path}
    (canonical : d.ProperNames → mixin.IsCanonical)
    (connected : (ctx.prepare d).graph.connected.contains mixin = true) :
    ListedConnected ctx d mixin := by
  refine ⟨connected, ?_⟩
  obtain ⟨written, member, same⟩ := List.contains_iff_exists_mem_beq.mp connected
  refine ⟨written, BEq.symm same, fun names => ?_, ?_⟩
  · exact (Context.connected_isCanonical names member).eq_of_beq (canonical names) (BEq.symm same)
  · rw [migrate_eq_visits]
    exact List.mem_map_of_mem member

theorem composed_mixins_connected {ctx : Context} {d : Disk} (dry : ctx.dryRun = true) {v : Visit}
    (visit : v ∈ ctx.visits d) {plan : Plan}
    (verdict : v.verdict ctx (ctx.prepare d) = .generate plan) :
    ∃ f declaration, (ctx.prepare d).loaded.parsed.get? v.path = some f ∧
      f.declaration = some declaration ∧
      plan = (v.before.project ctx (ctx.prepare d)).planDeclared f v.role declaration ∧
      ∀ name t, (v.before.project ctx (ctx.prepare d)).mixinTrait? f name = some t →
        ∃ mixin, (ctx.prepare d).boundMixin? ctx v.before.disk f name = some mixin ∧
          t = (ctx.prepare d).mixinTrait ctx mixin ∧ ListedConnected ctx d mixin := by
  have unchanged : v.before.disk = d :=
    (Context.sound_visits (fun v _ => Context.quiet_of_dryRun dry v _) v visit).dry dry
  have judged := ctx.judged_visit visit
  rw [verdict] at judged
  cases judged with
  | generate read used declared =>
    have generates : v.Generates ctx d _ _ := ⟨visit, read, used, verdict⟩
    refine ⟨_, _, read, declared, rfl, ?_⟩
    intro name t composed
    rw [RunState.mixinTrait?_eq, unchanged] at composed
    obtain ⟨mixin, bound, rfl⟩ := Option.map_eq_some_iff.mp composed
    refine ⟨mixin, by rw [unchanged, bound], rfl, listedConnected ?_ ?_⟩
    · intro names
      obtain ⟨-, i, -, resolved⟩ := Prepared.boundMixin?_eq_some bound
      exact Context.resolve?_isCanonical names.workingDirectory
        (Option.filter_eq_some_iff.mp resolved).1
    · exact generates.boundMixin_connected bound

theorem tagged_visit :
    ((taggedContext.visits taggedDisk).any fun v =>
      let prepared := taggedContext.prepare taggedDisk
      !(v.planned taggedContext prepared).isEmpty &&
        ((prepared.loaded.parsed.get? v.path).bind
          ((v.before.project taggedContext prepared).mixinTrait? · "T")).any
            (·.name == "tag")) = true := by
  decide +kernel

theorem composed_mixins_connected_tagged :
    ∃ v ∈ taggedContext.visits taggedDisk, taggedContext.dryRun = true ∧
      (∃ plan, v.verdict taggedContext (taggedContext.prepare taggedDisk) = .generate plan) ∧
      ∃ mixin, entityName mixin taggedContext.mixins.roots taggedContext.extensions = "tag" ∧
        ListedConnected taggedContext taggedDisk mixin := by
  obtain ⟨v, visit, checked⟩ := List.any_eq_true.mp tagged_visit
  rw [Bool.and_eq_true] at checked
  obtain ⟨t, composed, named⟩ := (Option.any_eq_true _ _).mp checked.2
  cases verdict : v.verdict taggedContext (taggedContext.prepare taggedDisk) with
  | unread | skip => simp [Visit.planned, verdict] at checked
  | generate plan =>
    obtain ⟨f, declaration, read, -, -, connected⟩ := composed_mixins_connected rfl visit verdict
    rw [read] at composed
    obtain ⟨mixin, -, rfl, listed⟩ := connected "T" t composed
    exact ⟨v, visit, rfl, ⟨plan, verdict⟩, mixin, beq_iff_eq.mp named, listed⟩

end SchemaMigration
