import Glossary.Proofs.ViewForest

/-!
The joins of a view are the join path that the statements of the graph spell out.
-/

namespace Glossary

/-- The join follows a statement `has a` or `must have a`. -/
def Join.IsReference (j : Join) : Prop :=
  j.relation = .composes ∨ j.relation = .requires

/-- The join hangs from the table of a thing that is had, or from one of the ancestors that are
joined to that table. -/
def Join.HangsWithin (js : List Join) (j : Join) : Prop :=
  ∃ i ∈ js, i.IsReference ∧
    (j.parentAlias = i.aliasName ∧ (j.relation = .inherits ∨ j.relation = .requires) ∨
      ∃ a ∈ js, a.relation = .inherits ∧ a.parentAlias = i.aliasName ∧
        j.parentAlias = a.aliasName ∧ j.relation = .requires)

/-- The joins follow the statements of the graph, starting from the table of `key`: the things that
it has and its parents from the base table, the ancestors of a thing straight after it, and what
they all must have from where they stand. -/
structure Graph.IsJoinPath (g : Graph) (key : Key) (js : List Join) : Prop where
  from_base : (joinsFrom baseAlias js).map Join.step =
    (((g.references key).filter fun l => g.isEntity l.target).map fun l =>
      ((key, l.target, l.relation), if l.relation = .composes then .left else .inner)) ++
    (g.parents key).map fun parent => ((key, parent, .inherits), .inner)
  arrivals : ∀ before j after, js = before ++ j :: after → j.IsReference →
    ∃ ancestors rest, after = ancestors ++ rest ∧
      ((joinsFrom j.aliasName js).filter fun i => i.relation == .inherits) = ancestors ∧
      g.ListsAncestors j.target (ancestors.map Join.target) ∧
      ∀ owner ∈ j :: ancestors,
        ((joinsFrom owner.aliasName js).filter fun i => i.relation == .requires).map Join.step =
          ((g.requirements owner.target).filter fun l => g.isEntity l.target).map fun l =>
            ((owner.target, l.target, .requires), j.kind)
  compositions : ∀ j ∈ js, j.relation = .composes → j.parentAlias = baseAlias
  no_others : ∀ j ∈ js, j.parentAlias = baseAlias ∨ j.HangsWithin js

theorem Join.HangsWithin.mono {js js' : List Join} {j : Join} (h : j.HangsWithin js)
    (hsub : js ⊆ js') : j.HangsWithin js' := by
  obtain ⟨i, hi, hreference, h⟩ := h
  refine ⟨i, hsub hi, hreference, ?_⟩
  rcases h with h | ⟨a, ha, h⟩
  · exact Or.inl h
  · exact Or.inr ⟨a, hsub ha, h⟩

namespace Graph

variable {g : Graph} {o : ResolutionOptions} {key : Key} {n : Nat} {hop : Hop} {hops : List Hop}
  {path : List Key} {tables as : List Attachment} {a t : Attachment}

namespace Arrives

variable {first : Attachment} {ancestors : List Attachment}

theorem hangsWithin_of_mem (h : g.Arrives n hop first ancestors) (hfirst : first.join.IsReference)
    (ha : a ∈ ancestors) : a.join.HangsWithin ((first :: ancestors).map Attachment.join) := by
  obtain ⟨hparent, hinherits⟩ := h.hang a ha
  exact ⟨first.join, List.mem_cons_self, hfirst,
    Or.inl ⟨hparent.trans h.alias_eq.symm, Or.inl hinherits⟩⟩

theorem hangsWithin_of_requires (h : g.Arrives n hop first ancestors)
    (hfirst : first.join.IsReference) (ht : t ∈ first :: ancestors) {j : Join}
    (hparent : j.parentAlias = t.join.aliasName) (hrequires : j.relation = .requires) :
    j.HangsWithin ((first :: ancestors).map Attachment.join) := by
  refine ⟨first.join, List.mem_cons_self, hfirst, ?_⟩
  rcases List.mem_cons.mp ht with rfl | hancestor
  · exact Or.inl ⟨hparent, Or.inr hrequires⟩
  · obtain ⟨hparent', hinherits⟩ := h.hang t hancestor
    exact Or.inr ⟨t.join, List.mem_map_of_mem ht, hinherits, hparent'.trans h.alias_eq.symm,
      hparent, hrequires⟩

end Arrives

theorem Exposed.hangs (h : g.Exposed o path n hops as)
    (hreference : ∀ hop ∈ hops, hop.relation = .composes ∨ hop.relation = .requires)
    (ha : a ∈ as) :
    (∃ hop ∈ hops, a.join.parentAlias = hop.parentAlias ∧ a.join.relation = hop.relation) ∨
      a.join.HangsWithin (as.map Attachment.join) := by
  induction h with
  | nil => cases ha
  | @cons path n hop others tables below rest _ htables _ _ ihBelow ihAfter =>
      obtain ⟨first, ancestors, rfl, harrives⟩ := htables.exists_arrives
      have hfirst : first.join.IsReference := by
        rw [Join.IsReference, harrives.relation_eq]
        exact hreference hop List.mem_cons_self
      have htop : ∀ {j : Join}, j.HangsWithin ((first :: ancestors).map Attachment.join) →
          j.HangsWithin ((first :: ancestors ++ below ++ rest).map Attachment.join) := fun h =>
        h.mono (List.map_subset _ (List.Subset.trans (List.subset_append_left _ _)
          (List.subset_append_left _ _)))
      rcases List.mem_append.mp ha with ha | ha
      · rcases List.mem_append.mp ha with ha | ha
        · rcases List.mem_cons.mp ha with rfl | ha
          · exact Or.inl ⟨hop, List.mem_cons_self, harrives.parentAlias_eq, harrives.relation_eq⟩
          · exact Or.inr (htop (harrives.hangsWithin_of_mem hfirst ha))
        · have honward : ∀ next ∈ g.onwardHops o hop (first :: ancestors),
              next.relation = .composes ∨ next.relation = .requires := by
            intro next hnext
            obtain ⟨t, -, -, hrequires⟩ := exists_of_mem_onwardHops hnext
            exact Or.inr hrequires
          rcases ihBelow honward ha with ⟨next, hnext, hparent, hrelation⟩ | h
          · obtain ⟨t, ht, hstart, hrequires⟩ := exists_of_mem_onwardHops hnext
            exact Or.inr (htop (harrives.hangsWithin_of_requires hfirst ht (hparent.trans hstart)
              (hrelation.trans hrequires)))
          · refine Or.inr (h.mono (List.map_subset _ ?_))
            exact List.Subset.trans (List.subset_append_right _ _) (List.subset_append_left _ _)
      · have hothers : ∀ next ∈ others,
            next.relation = .composes ∨ next.relation = .requires := fun next hnext =>
          hreference next (List.mem_cons_of_mem hop hnext)
        rcases ihAfter hothers ha with ⟨next, hnext, hsame⟩ | h
        · exact Or.inl ⟨next, List.mem_cons_of_mem hop hnext, hsame⟩
        · exact Or.inr (h.mono (List.map_subset _ (List.subset_append_right _ _)))

theorem OpensNode.exists_ancestors {lo hi : Nat} {before after : List Attachment}
    {js : List Join} (h : g.OpensNode o lo hi before a after)
    (hjs : js = (before ++ a :: after).map Attachment.join) :
    ∃ ancestors rest, after.map Attachment.join = ancestors ++ rest ∧
      ((joinsFrom a.join.aliasName js).filter fun i => i.relation == .inherits) = ancestors ∧
      g.ListsAncestors a.join.target (ancestors.map Join.target) ∧
      ∀ owner ∈ a.join :: ancestors,
        ((joinsFrom owner.aliasName js).filter fun i => i.relation == .requires).map Join.step =
          ((g.requirements owner.target).filter fun l => g.isEntity l.target).map fun l =>
            ((owner.target, l.target, .requires), a.join.kind) := by
  obtain ⟨m, hop, tables, below, rest, hnode, heq, -, -, houtside⟩ := h
  have hfrom : ∀ t ∈ tables, joinsFrom t.join.aliasName js =
      joinsFrom t.join.aliasName (tables.map Attachment.join) ++
        joinsFrom t.join.aliasName (below.map Attachment.join) := by
    intro t ht
    rw [hjs, heq]
    exact hnode.joinsFrom_eq ht houtside
  obtain ⟨first, ancestors, rfl, harrives⟩ := hnode.tables_of.exists_arrives
  obtain ⟨rfl, rfl⟩ := List.cons.inj heq
  -- what hangs from a table is an ancestor beside it or, by `must have a`, a node below it
  refine ⟨ancestors.map Attachment.join, (below ++ rest).map Attachment.join, by simp, ?_, ?_, ?_⟩
  · have ha : a ∈ a :: ancestors := List.mem_cons_self
    rw [hfrom a ha, List.filter_append, List.filter_eq_self.mpr, List.filter_eq_nil_iff.mpr,
      List.append_nil, hnode.joinsFrom_first harrives]
    · intro j hj
      simp [hnode.relation_of_mem_joinsFrom_below ha hj]
    · intro j hj
      simp [hnode.relation_of_mem_joinsFrom ha hj]
  · rw [List.map_map, harrives.target_eq]
    simpa [Function.comp_def, harrives.targets_eq] using listsAncestors_ancestors harrives.acyclic
  · intro owner howner
    rw [← List.map_cons] at howner
    obtain ⟨t, ht, rfl⟩ := List.mem_map.mp howner
    rw [hfrom t ht, List.filter_append, List.filter_eq_nil_iff.mpr, List.filter_eq_self.mpr,
      List.nil_append, hnode.map_step_joinsFrom_below ht, harrives.kind_eq]
    · intro j hj
      simp [hnode.relation_of_mem_joinsFrom_below ht hj]
    · intro j hj
      simp [hnode.relation_of_mem_joinsFrom ht hj]

theorem map_step_firstHops :
    (g.firstHops o key).map Hop.step =
      ((g.references key).filter fun l => g.isEntity l.target).map fun l =>
        ((key, l.target, l.relation), if l.relation = .composes then .left else .inner) := by
  simp [firstHops, Hop.step, referenceHop, Function.comp_def]

theorem firstHops_starts (h : hop ∈ g.firstHops o key) :
    hop.parentAlias = baseAlias ∧ (hop.relation = .composes ∨ hop.relation = .requires) := by
  obtain ⟨l, hl, rfl⟩ := List.mem_map.mp h
  exact ⟨rfl, by simpa [referenceHop] using List.of_mem_filter (List.mem_of_mem_filter hl)⟩

namespace Assembles

variable {table : TableSchema} {exposed parents : List Attachment} {v : ViewSchema}

theorem map_step_joinsFrom_base (h : g.Assembles o key table exposed parents v) :
    (joinsFrom baseAlias v.joins).map Join.step =
      (((g.references key).filter fun l => g.isEntity l.target).map fun l =>
        ((key, l.target, l.relation), if l.relation = .composes then .left else .inner)) ++
      (g.parents key).map fun parent => ((key, parent, .inherits), .inner) := by
  have hexposed : ∀ a ∈ exposed, a.join.aliasName ≠ baseAlias := by
    intro a ha
    obtain ⟨m, hlt, -, heq⟩ := h.exposed_of.exists_alias ha
    rw [heq, ← aliasAt_zero, Ne, aliasAt_inj]
    omega
  have hfirst : ((g.firstHops o key).filter fun hop => hop.parentAlias == baseAlias) =
      g.firstHops o key :=
    List.filter_eq_self.mpr fun hop hhop => beq_iff_eq.mpr (firstHops_starts hhop).1
  have hparents : joinsFrom baseAlias (parents.map Attachment.join) =
      parents.map Attachment.join := by
    refine joinsFrom_eq_self fun j hj => ?_
    obtain ⟨a, ha, rfl⟩ := List.mem_map.mp hj
    exact (h.parents_of.join_eq ha).1
  rw [h.joins_eq, List.map_append, joinsFrom_append, List.map_append,
    h.exposed_of.map_step_joinsFrom hexposed, hfirst, map_step_firstHops, hparents,
    h.parents_of.map_step]

theorem opensNode (h : g.Assembles o key table exposed parents v) {before after : List Attachment}
    (hsplit : exposed ++ parents = before ++ a :: after) (hreference : a.join.IsReference) :
    g.OpensNode o 0 exposed.length before a after := by
  have hrelation : a.join.relation ≠ .inherits := by
    rcases hreference with heq | heq
    all_goals simp [heq]
  rcases exists_of_append_eq_append_cons hsplit with ⟨mid, hexposed, rfl⟩ | ⟨mid, -, hparents⟩
  · have hstart : StartWithin 0 (g.firstHops o key) := fun hop hhop =>
      ⟨0, le_refl 0, (firstHops_starts hhop).1⟩
    have hopens := h.exposed_of.opensNode hstart hexposed hrelation
    refine hopens.extend (le_refl 0) (by omega) [] parents fun b hb k hlt _ => ?_
    rw [(h.parents_of.join_eq hb).1, ← aliasAt_zero, Ne, aliasAt_inj]
    omega
  · have ha : a ∈ parents := by simp [hparents]
    exact absurd (h.parents_of.join_eq ha).2 hrelation

theorem base_or_hangsWithin (h : g.Assembles o key table exposed parents v) {j : Join}
    (hj : j ∈ v.joins) :
    j.parentAlias = baseAlias ∨ j.HangsWithin v.joins := by
  rw [h.joins_eq] at hj ⊢
  obtain ⟨a, ha, rfl⟩ := List.mem_map.mp hj
  rcases List.mem_append.mp ha with ha | ha
  · rcases h.exposed_of.hangs (fun hop hhop => (firstHops_starts hhop).2) ha with
      ⟨hop, hhop, hparent, -⟩ | hhangs
    · exact Or.inl (hparent.trans (firstHops_starts hhop).1)
    · exact Or.inr (hhangs.mono (List.map_subset _ (List.subset_append_left _ _)))
  · exact Or.inl (h.parents_of.join_eq ha).1

theorem isJoinPath (h : g.Assembles o key table exposed parents v) :
    g.IsJoinPath key v.joins where
  from_base := h.map_step_joinsFrom_base
  arrivals := by
    intro before j after hsplit hreference
    rw [h.joins_eq] at hsplit
    obtain ⟨before', last, happend, rfl, hlast⟩ := List.map_eq_append_iff.mp hsplit
    obtain ⟨a, after', rfl, rfl, rfl⟩ := List.map_eq_cons_iff.mp hlast
    refine (h.opensNode happend hreference).exists_ancestors ?_
    rw [h.joins_eq, happend]
  compositions := by
    intro j hj hcomposes
    rcases h.base_or_hangsWithin hj with hbase | ⟨i, -, -, ⟨-, hor⟩ | ⟨a, -, -, -, -, hrequires⟩⟩
    · exact hbase
    · rcases hor with heq | heq
      all_goals cases hcomposes.symm.trans heq
    · cases hcomposes.symm.trans hrequires
  no_others := fun j hj => h.base_or_hangsWithin hj

end Assembles

/-- The joins of every view that is resolved are the join path of its term. -/
theorem view_isJoinPath {g : Graph} {o : ResolutionOptions} {key : Key} {v : ViewSchema}
    (h : g.view o key = .ok v) : g.IsJoinPath key v.joins := by
  obtain ⟨table, exposed, parents, hassembles⟩ := exists_assembles h
  exact hassembles.isJoinPath

theorem report_isJoinPath : ∃ v, staff.view .standard "report" = .ok v ∧
    staff.IsJoinPath "report" v.joins := by
  obtain ⟨v, hv, -⟩ := Fallible.exists_of_map_eq_ok staff_view_report
  exact ⟨v, hv, view_isJoinPath hv⟩

end Graph

end Glossary
