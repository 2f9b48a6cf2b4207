import Glossary.Proofs.ViewTerms

/-!
No attribute is lost on the way from a term to those that inherit from it or have it. A view begins
with the columns of its own table; the columns of every ancestor and of everything that is joined
are there by name. When a column of a parent has lost its name to another term, an anomaly names it.
-/

namespace Glossary

/-- A column is there by name with the same term and type, or there is an anomaly that names it. -/
def ViewSchema.Accounts (v : ViewSchema) (c : ViewColumn) : Prop :=
  (∃ k ∈ v.columns, k.name = c.name ∧ k.term = c.term ∧ k.primitive = c.primitive) ∨
    ∃ i ∈ v.issues, i.location = v.label ++ "." ++ c.name

/-- What the view of a term keeps of the columns that it is made from. -/
structure ViewSchema.KeepsAttributes (g : Graph) (o : ResolutionOptions) (key : Key)
    (v : ViewSchema) : Prop where
  own_first : ∃ t own, g.table o key = .ok t ∧ own <+: v.columns ∧
    own.map ViewColumn.toColumn = t.columns ∧ ∀ c ∈ own, c.aliasName = "t0"
  inherited : ∀ a, Relation.TransGen g.Inherits key a →
    ∃ s, g.view o a = .ok s ∧ s.columnNames ⊆ v.columnNames
  joined : ∀ j ∈ v.joins, ∃ t, g.table o j.target = .ok t ∧ t.columnNames ⊆ v.columnNames
  parents : ∀ parent, g.Inherits key parent →
    ∃ s, g.view o parent = .ok s ∧ ∀ c ∈ s.columns, v.Accounts c

namespace Graph

variable {g : Graph} {o : ResolutionOptions} {key : Key} {t : TableSchema} {v : ViewSchema}

theorem source_eq_of_mem_contributions {c : Column} (h : c ∈ g.contributions o key) :
    (c.name, c.primitive) = g.identifierSource o c.term := by
  simp only [contributions, List.mem_cons, List.mem_append, List.mem_map] at h
  rcases h with rfl | ⟨ancestor, -, rfl⟩ | ⟨l, -, rfl⟩
  · rfl
  · rfl
  · rfl

theorem source_eq_of_carried_eq {c k : Column} (h : k.carried = c.carried)
    (hk : (k.name, k.primitive) = g.identifierSource o k.term) :
    (c.name, c.primitive) = g.identifierSource o c.term := by
  obtain ⟨name, primitive, role, required, term, label, relation⟩ := c
  obtain ⟨name', primitive', role', required', term', label', relation'⟩ := k
  simp only [Column.carried, Column.mk.injEq] at h
  obtain ⟨rfl, rfl, -, -, rfl, -, -⟩ := h
  exact hk

/-- The name and the type of a column follow from the term that it carries. -/
theorem view_source_eq (hv : g.view o key = .ok v) :
    ∀ c ∈ v.columns, (c.name, c.primitive) = g.identifierSource o c.term := by
  refine view_induction (motive := fun _ v =>
    ∀ c ∈ v.columns, (c.name, c.primitive) = g.identifierSource o c.term) ?_ hv
  intro key table exposed parents v h hviews c hc
  obtain ⟨columns, hsupplies, k, hk, hcarried⟩ := h.wellScoped.columns_supplied c hc
  refine source_eq_of_carried_eq hcarried ?_
  have htable : ∀ {key : Key} {t : TableSchema}, g.table o key = .ok t → k ∈ t.columns →
      (k.name, k.primitive) = g.identifierSource o k.term := fun ht hk =>
    source_eq_of_mem_contributions ((isTable_of_table_eq_ok ht).contributed k hk)
  generalize c.aliasName = x at hsupplies
  cases hsupplies with
  | base ht _ => exact htable ht hk
  | join _ hreads =>
      cases hreads with
      | table _ ht _ => exact htable ht hk
      | view _ _ hmem _ =>
          obtain ⟨shown, hshown, rfl⟩ := List.mem_map.mp hk
          exact hviews _ hmem shown hshown

theorem ParentsJoined.exists_attachment {n : Nat} {parents : List Key} {as : List Attachment}
    (h : g.ParentsJoined o key n parents as) {parent : Key} (hparent : parent ∈ parents) :
    ∃ m s, g.view o parent = .ok s ∧ g.parentAttachment o key m parent s ∈ as := by
  induction h with
  | nil => cases hparent
  | cons hview _ ih =>
      rcases List.mem_cons.mp hparent with rfl | hparent
      · exact ⟨_, _, hview, List.mem_cons_self⟩
      · obtain ⟨m, s, hs, hmem⟩ := ih hparent
        exact ⟨m, s, hs, List.mem_cons_of_mem _ hmem⟩

namespace Assembles

variable {table : TableSchema} {exposed parents : List Attachment} {a : Attachment} {j : Join}

theorem exists_column (h : g.Assembles o key table exposed parents v) (ha : a ∈ exposed ++ parents)
    {c : ViewColumn} (hc : c ∈ a.columns) : ∃ k ∈ v.columns, k.name = c.name ∧
      (k.term = c.term ∨ ∃ i ∈ v.issues, i.location = v.label ++ "." ++ c.name) := by
  have hmem : c ∈ viewContributions table (exposed ++ parents) :=
    List.mem_append_right _ (List.mem_flatMap.mpr ⟨a, ha, hc⟩)
  rw [h.label_eq]
  exact Draft.addAll_accounts h.columns_of hmem

theorem columnNames_subset (h : g.Assembles o key table exposed parents v)
    (ha : a ∈ exposed ++ parents) : (a.columns.map fun c => c.name) ⊆ v.columnNames := by
  intro name hname
  obtain ⟨c, hc, rfl⟩ := List.mem_map.mp hname
  obtain ⟨k, hk, hkname, -⟩ := h.exists_column ha hc
  exact List.mem_map.mpr ⟨k, hk, hkname⟩

theorem exists_own (h : g.Assembles o key table exposed parents v) :
    ∃ own, own <+: v.columns ∧ own.map ViewColumn.toColumn = table.columns ∧
      ∀ c ∈ own, c.aliasName = baseAlias := by
  refine ⟨table.baseColumns, h.baseColumns_kept, ?_, ?_⟩
  · simp [TableSchema.baseColumns, Column.shownBy, Function.comp_def]
  · simp [TableSchema.baseColumns, Column.shownBy]

theorem table_columnNames_subset (h : g.Assembles o key table exposed parents v) :
    table.columnNames ⊆ v.columnNames := by
  obtain ⟨own, hprefix, htable, -⟩ := h.exists_own
  rw [TableSchema.columnNames, ← htable, List.map_map]
  exact List.map_subset _ hprefix.subset

theorem exists_parent_view (h : g.Assembles o key table exposed parents v)
    (hv : g.view o key = .ok v) {parent : Key} (hparent : g.Inherits key parent) :
    ∃ s, g.view o parent = .ok s ∧ s.columnNames ⊆ v.columnNames ∧
      ∀ c ∈ s.columns, v.Accounts c := by
  obtain ⟨m, s, hs, hmem⟩ := h.parents_of.exists_attachment hparent
  have ha := List.mem_append_right exposed hmem
  have hshown : ∀ c ∈ s.columns, c.shownBy (aliasAt (m + 1)) s.label ∈
      (g.parentAttachment o key m parent s).columns := fun c hc => List.mem_map_of_mem hc
  refine ⟨s, hs, ?_, fun c hc => ?_⟩
  · have hsubset := h.columnNames_subset ha
    rwa [parentAttachment, List.map_map] at hsubset
  · obtain ⟨k, hk, hname, hterm⟩ := h.exists_column ha (hshown c hc)
    refine hterm.imp_left fun hterm => ⟨k, hk, hname, hterm, ?_⟩
    calc
      k.primitive = (g.identifierSource o k.term).2 := congrArg Prod.snd (view_source_eq hv k hk)
      _ = (g.identifierSource o c.term).2 := congrArg (fun t => (g.identifierSource o t).2) hterm
      _ = c.primitive := (congrArg Prod.snd (view_source_eq hs c hc)).symm

theorem exists_joined_table (h : g.Assembles o key table exposed parents v) (hj : j ∈ v.joins) :
    ∃ t, g.table o j.target = .ok t ∧ t.columnNames ⊆ v.columnNames := by
  obtain ⟨a, ha, rfl⟩ := h.exists_attachment hj
  have hsubset := h.columnNames_subset ha
  rcases List.mem_append.mp ha with ha | ha
  · obtain ⟨m, hop, t, ht, rfl⟩ := h.exposed_of.exists_table ha
    refine ⟨t, ht, ?_⟩
    rwa [tableAttachment, List.map_map] at hsubset
  · obtain ⟨m, parent, -, s, hs, rfl⟩ := h.parents_of.exists_parent ha
    obtain ⟨t, _, _, hparent⟩ := exists_assembles hs
    refine ⟨t, hparent.table_eq_ok, List.Subset.trans hparent.table_columnNames_subset ?_⟩
    rwa [parentAttachment, List.map_map] at hsubset

end Assembles

/-- What an ancestor shows is shown by every term that inherits from it. -/
theorem exists_ancestor_view {a : Key} (hv : g.view o key = .ok v)
    (hreach : Relation.TransGen g.Inherits key a) :
    ∃ s, g.view o a = .ok s ∧ s.columnNames ⊆ v.columnNames := by
  induction hreach using Relation.TransGen.head_induction_on generalizing v with
  | single hparent =>
      obtain ⟨table, exposed, parents, h⟩ := exists_assembles hv
      obtain ⟨s, hs, hsubset, -⟩ := h.exists_parent_view hv hparent
      exact ⟨s, hs, hsubset⟩
  | head hparent _ ih =>
      obtain ⟨table, exposed, parents, h⟩ := exists_assembles hv
      obtain ⟨s, hs, hsubset, -⟩ := h.exists_parent_view hv hparent
      obtain ⟨s', hs', hsubset'⟩ := ih hs
      exact ⟨s', hs', List.Subset.trans hsubset' hsubset⟩

/-- The view of a term keeps the attributes of the term, of its ancestors and of all that is
joined. -/
theorem view_keepsAttributes {g : Graph} {o : ResolutionOptions} {key : Key} {v : ViewSchema}
    (hv : g.view o key = .ok v) : v.KeepsAttributes g o key := by
  obtain ⟨table, exposed, parents, h⟩ := exists_assembles hv
  constructor
  case own_first =>
    obtain ⟨own, hprefix, htable, halias⟩ := h.exists_own
    exact ⟨table, own, h.table_eq_ok, hprefix, htable, halias⟩
  case inherited => exact fun a hreach => exists_ancestor_view hv hreach
  case joined => exact fun j hj => h.exists_joined_table hj
  case parents =>
    intro parent hparent
    obtain ⟨s, hs, -, haccounts⟩ := h.exists_parent_view hv hparent
    exact ⟨s, hs, haccounts⟩

theorem manager_keepsAttributes : ∃ v, staff.view .standard "manager" = .ok v ∧
    v.KeepsAttributes staff .standard "manager" := by
  obtain ⟨v, hv, -⟩ := Fallible.exists_of_map_eq_ok staff_view_manager
  exact ⟨v, hv, view_keepsAttributes hv⟩

end Graph

end Glossary
