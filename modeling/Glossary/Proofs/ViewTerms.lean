import Glossary.Proofs.Locality
import Glossary.Proofs.Nullability
import Glossary.Proofs.Resolvability

/-!
The terms that take part in a view. A view embeds views of parents, so views can be taken by
induction from the outermost ancestors down. Every join connects two declared terms, which are never
the same.
-/

namespace Glossary

theorem Name.table_ne_view (x y : String) : Name.table x ≠ Name.view y := by
  intro h
  have hlist := congrArg String.toList h
  simp [Name.table, Name.view] at hlist

namespace Graph

variable {g : Graph} {primitives : Primitives} {terms : List Term} {o : ResolutionOptions}
  {key a b : Key} {n : Nat} {hops : List Hop} {path : List Key} {as : List Attachment}

/-- What passes from the views that a view embeds to the view itself holds of every view. -/
theorem view_induction {motive : Key → ViewSchema → Prop}
    (step : ∀ {key table exposed parents v}, g.Assembles o key table exposed parents v →
      (∀ s ∈ v.ancestors, motive s.term s) → motive key v)
    {key : Key} {v : ViewSchema} (hv : g.view o key = .ok v) : motive key v := by
  obtain ⟨table, exposed, parents, h⟩ := exists_assembles hv
  refine step h fun s hs => ?_
  have hlt : sizeOf s < sizeOf v := by
    have hmem := List.sizeOf_lt_of_mem hs
    cases v
    simp only [ViewSchema.mk.sizeOf_spec] at hmem ⊢
    omega
  exact view_induction step (h.exists_view_of_mem_ancestors hs)
termination_by sizeOf v

theorem Accepts.declares_of_inherits (h : Accepts primitives terms)
    (hinherits : (ofTerms primitives terms).Inherits a b) :
    (ofTerms primitives terms).declares b = true := by
  simp only [Inherits, parents, links, entry?_ofTerms, List.mem_map, List.mem_filter,
    beq_iff_eq] at hinherits
  obtain ⟨l, ⟨hl, hrelation⟩, rfl⟩ := hinherits
  cases hfind : terms.find? fun t => t.key == a with
  | none => simp [hfind] at hl
  | some t =>
      rw [hfind] at hl
      obtain ⟨r, hr, rfl⟩ := List.mem_map.mp hl
      have hallows := (h.accepts_term t (List.mem_of_find?_eq_some hfind)).targets_allowed r hr
      have hinherits : r.relation = .inherits := hrelation
      rw [AllowsTarget, hinherits] at hallows
      obtain ⟨u, hu, hkey, -⟩ := hallows
      exact declares_ofTerms_iff.mpr ⟨u, hu, hkey⟩

theorem declares_of_reflTransGen (hg : build primitives terms = .ok g)
    (hreach : Relation.ReflTransGen g.Inherits a b) (ha : g.declares a = true) :
    g.declares b = true := by
  obtain ⟨rfl, haccepts⟩ := build_eq_ok_iff.mp hg
  rcases Relation.ReflTransGen.cases_tail hreach with rfl | ⟨c, -, hparent⟩
  · exact ha
  · exact haccepts.declares_of_inherits hparent

/-- Terms with distinct database names are told apart by them. -/
theorem eq_of_snakeCase_eq (hg : build primitives terms = .ok g)
    (hnames : (terms.map fun t => Name.snakeCase t.name).Nodup) (ha : g.declares a = true)
    (hb : g.declares b = true) (h : Name.snakeCase (g.label a) = Name.snakeCase (g.label b)) :
    a = b := by
  obtain ⟨rfl, haccepts⟩ := build_eq_ok_iff.mp hg
  have hlabel : ∀ {key}, (ofTerms primitives terms).declares key = true →
      ∃ t ∈ terms, t.key = key ∧ (ofTerms primitives terms).label key = t.name := by
    intro key hkey
    rw [declares, entry?_ofTerms, Option.isSome_map] at hkey
    obtain ⟨t, ht⟩ := Option.isSome_iff_exists.mp hkey
    refine ⟨t, List.mem_of_find?_eq_some ht, key_eq_of_find? ht, ?_⟩
    simp [label, label?, entry?_ofTerms, ht, Entry.ofTerm]
  obtain ⟨t, ht, rfl, hname⟩ := hlabel ha
  obtain ⟨t', ht', rfl, hname'⟩ := hlabel hb
  rw [hname, hname'] at h
  rw [List.inj_on_of_nodup_map hnames ht ht' h]

theorem Exposed.declares_target (hg : build primitives terms = .ok g)
    (h : g.Exposed o path n hops as) (hhops : ∀ hop ∈ hops, g.isEntity hop.target = true)
    {a : Attachment} (ha : a ∈ as) : g.declares a.join.target = true := by
  induction h with
  | nil => cases ha
  | @cons path n hop others tables below after _ htables _ _ ihBelow ihAfter =>
      rw [List.forall_mem_cons] at hhops
      rcases List.mem_append.mp ha with ha | ha
      · rcases List.mem_append.mp ha with ha | ha
        · have hreach := (exists_mem_tables_iff htables).mp ⟨a, ha, rfl⟩
          exact declares_of_reflTransGen hg hreach (declares_of_isEntity hhops.1)
        · refine ihBelow (fun next hnext => ?_) ha
          exact ((exists_mem_onwardHops_iff htables).mp ⟨next, hnext, rfl⟩).isEntity
      · exact ihAfter hhops.2 ha

/-- A term that must have itself would be walked twice. -/
theorem Exposed.parentTerm_ne_target (h : g.Exposed o path n hops as) (hpath : path.Nodup)
    (hhops : ∀ hop ∈ hops, hop.parent ≠ hop.target) {a : Attachment} (ha : a ∈ as) :
    a.join.parentTerm ≠ a.join.target := by
  induction h with
  | nil => cases ha
  | @cons path n hop others tables below after hfresh htables hbelow _ ihBelow ihAfter =>
      rw [List.forall_mem_cons] at hhops
      rcases List.mem_append.mp ha with ha | ha
      · rcases List.mem_append.mp ha with ha | ha
        · obtain ⟨m, next, table, hnext, -, rfl⟩ := htables.exists_table ha
          rcases List.mem_cons.mp hnext with rfl | hnext
          · exact hhops.1
          · obtain ⟨ancestor, hancestor, rfl⟩ := List.mem_map.mp hnext
            exact (mem_ancestors_iff.mp hancestor).1.symm
        · have hpath' := nodup_append_singleton hpath hfresh
          refine ihBelow hpath' (fun next hnext hself => ?_) ha
          obtain ⟨t, -, hmem⟩ := List.mem_flatMap.mp hnext
          have hrequired : g.MustHave next.target next.target := by
            refine ⟨t.standing.1, ?_, ?_⟩
            · obtain ⟨l, -, rfl⟩ := List.mem_map.mp hmem
              exact hself ▸ Relation.ReflTransGen.refl
            · exact (exists_mem_furtherHops_iff o hop.isOptional t.standing).mp ⟨next, hmem, rfl⟩
          have hwalk := hbelow.walk hpath' hnext
            (List.isChain_cons_cons.mpr ⟨hrequired, List.IsChain.singleton _⟩)
          simpa using (List.nodup_append.mp hwalk.1).2.1
      · exact ihAfter hpath hhops.2 ha

namespace Assembles

variable {table : TableSchema} {exposed parents : List Attachment} {v : ViewSchema} {j : Join}

theorem exists_attachment (h : g.Assembles o key table exposed parents v) (hj : j ∈ v.joins) :
    ∃ a ∈ exposed ++ parents, a.join = j := by
  rw [h.joins_eq] at hj
  exact List.mem_map.mp hj

/-- An embedded view is the view of a parent, and it is joined as a view. -/
theorem exists_join_of_mem_ancestors (h : g.Assembles o key table exposed parents v)
    {s : ViewSchema} (hs : s ∈ v.ancestors) :
    g.Inherits key s.term ∧
      ∃ j ∈ v.joins, j.source = .view ∧ j.target = s.term ∧ j.table = s.view := by
  rw [h.ancestors_eq] at hs
  obtain ⟨a, ha, hs⟩ := List.mem_flatMap.mp hs
  have hjoin := h.mem_joins ha
  rcases List.mem_append.mp ha with ha | ha
  · obtain ⟨m, hop, t, -, rfl⟩ := h.exposed_of.exists_table ha
    simp [tableAttachment] at hs
  · obtain ⟨m, parent, hparent, ancestor, hview, rfl⟩ := h.parents_of.exists_parent ha
    obtain ⟨_, _, _, hancestor⟩ := exists_assembles hview
    cases hbare : ancestor.joins.isEmpty with
    | true => simp [parentAttachment, hbare] at hs
    | false =>
        obtain rfl : s = ancestor := by simpa [parentAttachment, hbare, eq_comm] using hs
        rw [hancestor.term_eq]
        refine ⟨hparent, _, hjoin, ?_⟩
        simp [parentAttachment, hbare]

theorem declares_target (h : g.Assembles o key table exposed parents v)
    (hg : build primitives terms = .ok g) (hj : j ∈ v.joins) : g.declares j.target = true := by
  obtain ⟨a, ha, rfl⟩ := h.exists_attachment hj
  rcases List.mem_append.mp ha with ha | ha
  · refine h.exposed_of.declares_target hg (fun hop hhop => ?_) ha
    exact (has_iff_exists_mem_firstHops.mpr ⟨hop, hhop, rfl⟩).isEntity
  · obtain ⟨m, parent, hparent, ancestor, -, rfl⟩ := h.parents_of.exists_parent ha
    have hinherits : g.Inherits key parent := hparent
    exact declares_of_reflTransGen hg (Relation.ReflTransGen.single hinherits)
      (declares_of_inherits hinherits)

theorem parentTerm_ne_target (h : g.Assembles o key table exposed parents v) (hj : j ∈ v.joins) :
    j.parentTerm ≠ j.target := by
  obtain ⟨a, ha, rfl⟩ := h.exists_attachment hj
  rcases List.mem_append.mp ha with ha | ha
  · refine h.exposed_of.parentTerm_ne_target (List.nodup_singleton key) ?_ ha
    intro hop hhop
    have hhas := has_iff_exists_mem_firstHops.mpr ⟨hop, hhop, rfl⟩
    have hwalk := (h.joinsSafely [hop.target] ⟨hhas, List.IsChain.singleton _⟩).1
    obtain ⟨l, -, rfl⟩ := List.mem_map.mp hhop
    simpa [referenceHop] using hwalk
  · obtain ⟨m, parent, hparent, ancestor, -, rfl⟩ := h.parents_of.exists_parent ha
    intro hself
    have hinherits : g.Inherits key key := by
      have hsame : key = parent := hself
      exact hsame ▸ hparent
    exact (isTable_of_table_eq_ok h.table_eq_ok).acyclic
      ⟨key, Relation.ReflTransGen.refl, Relation.TransGen.single hinherits⟩

theorem declares_parentTerm (h : g.Assembles o key table exposed parents v)
    (hg : build primitives terms = .ok g) (hkey : g.declares key = true) (hj : j ∈ v.joins) :
    g.declares j.parentTerm = true := by
  obtain ⟨n, hn⟩ := List.mem_iff_getElem?.mp hj
  obtain ⟨t, -, hstands⟩ := h.exists_table_stands hn
  rcases hstands with ⟨-, hterm, -⟩ | ⟨m, -, i, hi, -, -, hterm, -⟩
  · rw [hterm, h.term_eq]
    exact hkey
  · rw [← hterm]
    exact h.declares_target hg (List.mem_of_getElem? hi)

theorem labels_eq (h : g.Assembles o key table exposed parents v) (hj : j ∈ v.joins) :
    j.targetLabel = g.label j.target ∧ j.parentLabel = g.label j.parentTerm := by
  obtain ⟨a, ha, rfl⟩ := h.exists_attachment hj
  rcases List.mem_append.mp ha with ha | ha
  · obtain ⟨m, hop, t, ht, rfl⟩ := h.exposed_of.exists_table ha
    exact ⟨(isTable_of_table_eq_ok ht).label_eq, rfl⟩
  · obtain ⟨m, parent, -, ancestor, hview, rfl⟩ := h.parents_of.exists_parent ha
    obtain ⟨t, _, _, hancestor⟩ := exists_assembles hview
    refine ⟨hancestor.label_eq.trans ?_, rfl⟩
    exact (isTable_of_table_eq_ok hancestor.table_eq_ok).label_eq

/-- A join reads the table of its target, or the view of its target, which is embedded. -/
theorem reads (h : g.Assembles o key table exposed parents v) (hj : j ∈ v.joins) :
    (j.source = .table ∧ j.table = Name.table (g.label j.target)) ∨
      (j.source = .view ∧ ∃ s ∈ v.ancestors, s.term = j.target ∧ j.table = s.view) := by
  obtain ⟨identifier, rest, hreads, -⟩ := h.wellScoped.joins_identify j hj
  generalize identifier :: rest = columns at hreads
  cases hreads with
  | table hsource ht hname =>
      exact Or.inl ⟨hsource, hname.trans (isTable_of_table_eq_ok ht).table_eq⟩
  | view hsource hs hmem hname =>
      obtain ⟨_, _, _, hancestor⟩ := exists_assembles hs
      exact Or.inr ⟨hsource, _, hmem, hancestor.term_eq, hname⟩

theorem columns_eq (h : g.Assembles o key table exposed parents v) (hj : j ∈ v.joins) :
    j.fkColumn = (g.identifierColumn o j.target).name ∧
      j.keyColumn = (g.identifierColumn o j.target).name := by
  obtain ⟨a, ha, rfl⟩ := h.exists_attachment hj
  obtain ⟨before, hattached⟩ := h.isAttached ha
  exact ⟨hattached.fkColumn_eq, hattached.keyColumn_eq⟩

end Assembles

end Graph

end Glossary
