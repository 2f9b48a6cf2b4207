import Glossary.Proofs.ViewAssembly

/-!
Every attachment of a view hangs from a table that stands before it, by a column that this table
keeps for the identifier of the joined term. The columns it shows are those of the joined table or
view.
-/

namespace Glossary

open Fallible

/-- A column with its nullability forgotten, which is all that a view changes of it. -/
def Column.carried (c : Column) : Column :=
  { c with required := false }

namespace Graph

variable {g : Graph} {o : ResolutionOptions} {key : Key}

/-- The table of `term` stands at an alias: it is the base table, or it has been attached. -/
def Stands (g : Graph) (o : ResolutionOptions) (key : Key) (before : List Attachment)
    (aliasName : String) (term : Key) : Prop :=
  (aliasName = baseAlias ∧ term = key) ∨
    ∃ a ∈ before, ∃ n hop table, g.table o hop.target = .ok table ∧
      a = g.tableAttachment n hop table ∧ a.join.aliasName = aliasName ∧ a.join.target = term

theorem Stands.mono {before before' : List Attachment} {aliasName : String} {term : Key}
    (h : g.Stands o key before aliasName term) (hsub : before ⊆ before') :
    g.Stands o key before' aliasName term := by
  rcases h with h | ⟨a, ha, h⟩
  · exact Or.inl h
  · exact Or.inr ⟨a, hsub ha, h⟩

/-- The join reads a table, and the columns shown are those of the table. -/
structure ReadsTable (g : Graph) (o : ResolutionOptions) (a : Attachment) (t : TableSchema) :
    Prop where
  table_eq_ok : g.table o a.join.target = .ok t
  source_eq : a.join.source = .table
  name_eq : a.join.table = t.table
  columns_eq : (a.columns.map fun c => c.toColumn.carried) = t.columns.map Column.carried

/-- The join reads a view that is embedded, and the columns shown are those of the view. -/
structure ReadsView (g : Graph) (o : ResolutionOptions) (a : Attachment) (s : ViewSchema) :
    Prop where
  view_eq_ok : g.view o a.join.target = .ok s
  source_eq : a.join.source = .view
  name_eq : a.join.table = s.view
  embedded_eq : a.embedded = some s
  columns_eq : (a.columns.map fun c => c.toColumn.carried) =
    s.columns.map fun c => c.toColumn.carried

/-- What holds of an attachment that follows the ones `before`. -/
structure IsAttached (g : Graph) (o : ResolutionOptions) (key : Key) (before : List Attachment)
    (a : Attachment) : Prop where
  alias_eq : a.join.aliasName = aliasAt (before.length + 1)
  stands : g.Stands o key before a.join.parentAlias a.join.parentTerm
  stores : g.StoresIdentifier o a.join.parentTerm a.join.target
  fkColumn_eq : a.join.fkColumn = (g.identifierColumn o a.join.target).name
  keyColumn_eq : a.join.keyColumn = (g.identifierColumn o a.join.target).name
  shown : ∀ c ∈ a.columns, c.aliasName = a.join.aliasName
  reads : (∃ t, g.ReadsTable o a t) ∨ ∃ s, g.ReadsView o a s

/-- Every attachment follows the ones before it. -/
def Attached (g : Graph) (o : ResolutionOptions) (key : Key) :
    List Attachment → List Attachment → Prop
  | _, [] => True
  | before, a :: as => g.IsAttached o key before a ∧ g.Attached o key (before ++ [a]) as

theorem attached_append {before as bs : List Attachment} :
    g.Attached o key before (as ++ bs) ↔
      g.Attached o key before as ∧ g.Attached o key (before ++ as) bs := by
  induction as generalizing before with
  | nil => simp [Attached]
  | cons a as ih => simp [Attached, ih, and_assoc]

theorem Attached.isAttached {before after : List Attachment} {a : Attachment}
    (h : g.Attached o key [] (before ++ a :: after)) : g.IsAttached o key before a :=
  (attached_append.mp h).2.1

/-- The hop starts from a table that stands before it and keeps the identifier of its target. -/
structure Hangs (g : Graph) (o : ResolutionOptions) (key : Key) (before : List Attachment)
    (hop : Hop) : Prop where
  stands : g.Stands o key before hop.parentAlias hop.parent
  stores : g.StoresIdentifier o hop.parent hop.target
  fkColumn_eq : hop.fkColumn = (g.identifierColumn o hop.target).name

theorem Hangs.mono {before before' : List Attachment} {hop : Hop}
    (h : g.Hangs o key before hop) (hsub : before ⊆ before') : g.Hangs o key before' hop :=
  { h with stands := h.stands.mono hsub }

theorem hangs_of_mem_firstHops {hop : Hop} (h : hop ∈ g.firstHops o key) :
    g.Hangs o key [] hop := by
  obtain ⟨l, hl, rfl⟩ := List.mem_map.mp h
  exact ⟨Or.inl ⟨rfl, rfl⟩, storesIdentifier_of_mem_references o (List.mem_of_mem_filter hl), rfl⟩

theorem hangs_of_mem_furtherHops {before : List Attachment} {standing : Key × String}
    {isOptional : Bool} {hop : Hop} (h : hop ∈ g.furtherHops o isOptional standing)
    (hstands : g.Stands o key before standing.2 standing.1) : g.Hangs o key before hop := by
  obtain ⟨l, hl, rfl⟩ := List.mem_map.mp h
  have hreference : l ∈ g.references standing.1 :=
    List.mem_of_mem_filter (List.mem_of_mem_filter hl)
  exact ⟨hstands, storesIdentifier_of_mem_references o hreference, rfl⟩

theorem isAttached_tableAttachment {before : List Attachment} {hop : Hop} {table : TableSchema}
    (htable : g.table o hop.target = .ok table) (hhangs : g.Hangs o key before hop) :
    g.IsAttached o key before (g.tableAttachment before.length hop table) where
  alias_eq := rfl
  stands := hhangs.stands
  stores := hhangs.stores
  fkColumn_eq := hhangs.fkColumn_eq
  keyColumn_eq := by
    simp [tableAttachment, (isTable_of_table_eq_ok htable).identifier_eq]
  shown := by simp [tableAttachment, Column.shownBy]
  reads := Or.inl ⟨table, htable, rfl, rfl, by
    simp [tableAttachment, Column.shownBy, Column.carried]⟩

theorem TablesJoined.attached {n : Nat} {hops : List Hop} {as before : List Attachment}
    (h : g.TablesJoined o n hops as) (hlength : before.length = n)
    (hhops : ∀ hop ∈ hops, g.Hangs o key before hop) : g.Attached o key before as := by
  induction h generalizing before with
  | nil => trivial
  | @cons n hop rest table as htable _ ih =>
      subst hlength
      refine ⟨isAttached_tableAttachment htable (hhops hop List.mem_cons_self), ?_⟩
      refine ih (by simp) fun hop' hmem => ?_
      exact (hhops hop' (List.mem_cons_of_mem hop hmem)).mono (List.subset_append_left _ _)

theorem attached_of_tablesJoined_arrivalHops {hop : Hop} {as before : List Attachment}
    (h : g.TablesJoined o before.length (g.arrivalHops o before.length hop) as)
    (hhangs : g.Hangs o key before hop) : g.Attached o key before as := by
  cases h with
  | @cons _ _ _ table as htable hrest =>
      refine ⟨isAttached_tableAttachment htable hhangs, ?_⟩
      refine hrest.attached (by simp) fun ancestorHop hmem => ?_
      obtain ⟨ancestor, hancestor, rfl⟩ := List.mem_map.mp hmem
      refine ⟨Or.inr ⟨_, List.mem_append_right _ List.mem_cons_self, before.length, hop, table,
        htable, rfl, rfl, rfl⟩, ?_, rfl⟩
      exact storesIdentifier_of_mem_ancestors o hancestor

theorem Exposed.attached {path : List Key} {n : Nat} {hops : List Hop}
    {as before : List Attachment} (h : g.Exposed o path n hops as) (hlength : before.length = n)
    (hhops : ∀ hop ∈ hops, g.Hangs o key before hop) : g.Attached o key before as := by
  induction h generalizing before with
  | nil => trivial
  | @cons path n hop rest tables below after _ htables _ _ ihBelow ihAfter =>
      subst hlength
      rw [attached_append, attached_append]
      refine ⟨⟨?_, ?_⟩, ?_⟩
      · exact attached_of_tablesJoined_arrivalHops htables (hhops hop List.mem_cons_self)
      · refine ihBelow (by simp) fun next hnext => ?_
        obtain ⟨a, ha, hnext⟩ := List.mem_flatMap.mp hnext
        obtain ⟨m, hop', table, -, htable, rfl⟩ := htables.exists_table ha
        exact hangs_of_mem_furtherHops hnext (Or.inr ⟨_, List.mem_append_right _ ha, m, hop', table,
          htable, rfl, rfl, rfl⟩)
      · refine ihAfter (by simp [Nat.add_assoc]) fun next hnext => ?_
        exact (hhops next (List.mem_cons_of_mem hop hnext)).mono (List.subset_append_left _ _)

namespace Assembles

variable {table : TableSchema} {exposed parents : List Attachment} {v : ViewSchema}

theorem exists_addAll_attached (h : g.Assembles o key table exposed parents v) :
    Draft.addAll ViewColumn.toColumn ⟨.logical, table.label, o.strict⟩
      ⟨table.baseColumns, table.issues⟩
      ((exposed ++ parents).flatMap Attachment.columns) = .ok ⟨v.columns, v.issues⟩ := by
  obtain ⟨own, hown, hattached⟩ := foldlM_append_eq_ok_iff.mp h.columns_of
  have hnodup : (([] ++ table.baseColumns).map fun c : ViewColumn => c.name).Nodup := by
    simpa [TableSchema.baseColumns, Column.shownBy, TableSchema.columnNames,
      Function.comp_def] using (isTable_of_table_eq_ok h.table_eq_ok).nodup
  have hall := Draft.addAll_eq_ok_of_nodup (o := ⟨.logical, table.label, o.strict⟩)
    (d := ⟨[], table.issues⟩) hnodup
  obtain rfl := Except.ok.inj (hown.symm.trans hall)
  exact hattached

theorem baseColumns_kept (h : g.Assembles o key table exposed parents v) :
    table.baseColumns <+: v.columns :=
  (Draft.addAll_extends h.exists_addAll_attached).columns_kept

theorem identifier_eq (h : g.Assembles o key table exposed parents v) :
    v.identifier? = some ((g.identifierColumn o key).shownBy baseAlias table.label false) := by
  obtain ⟨rest, hrest⟩ := h.baseColumns_kept
  have hidentifier := (isTable_of_table_eq_ok h.table_eq_ok).identifier_eq
  rw [TableSchema.identifier?] at hidentifier
  simp [ViewSchema.identifier?, ← hrest, TableSchema.baseColumns, hidentifier]

theorem columns_eq_of_isEmpty (h : g.Assembles o key table exposed parents v)
    (hbare : v.joins.isEmpty = true) :
    v.columns = table.baseColumns := by
  have hnil : exposed ++ parents = [] := by
    simpa [h.joins_eq] using hbare
  have hcolumns := h.exists_addAll_attached
  rw [hnil] at hcolumns
  exact (congrArg Draft.columns (Except.ok.inj hcolumns)).symm

end Assembles

theorem isAttached_parentAttachment {before : List Attachment} {parent : Key}
    {ancestor : ViewSchema} (hview : g.view o parent = .ok ancestor)
    (hinherits : g.Inherits key parent) :
    g.IsAttached o key before (g.parentAttachment o key before.length parent ancestor) := by
  obtain ⟨table, exposed, parents, hassembles⟩ := exists_assembles hview
  refine ⟨rfl, Or.inl ⟨rfl, rfl⟩, storesIdentifier_of_inherits o hinherits, rfl, ?_, ?_, ?_⟩
  · simp [parentAttachment, hassembles.identifier_eq, Column.shownBy]
  · simp [parentAttachment, ViewColumn.shownBy]
  · cases hbare : ancestor.joins.isEmpty with
    | true =>
        refine Or.inl ⟨table, hassembles.table_eq_ok, ?_, ?_, ?_⟩
        · simp [parentAttachment, hbare]
        · simp [parentAttachment, hbare, hassembles.baseTable_eq]
        · simp [parentAttachment, hassembles.columns_eq_of_isEmpty hbare,
            TableSchema.baseColumns, ViewColumn.shownBy, Column.shownBy, Column.carried]
    | false =>
        refine Or.inr ⟨ancestor, hview, ?_, ?_, ?_, ?_⟩
        · simp [parentAttachment, hbare]
        · simp [parentAttachment, hbare]
        · simp [parentAttachment, hbare]
        · simp [parentAttachment, ViewColumn.shownBy, Column.carried]

theorem ParentsJoined.attached {n : Nat} {parents : List Key} {as before : List Attachment}
    (h : g.ParentsJoined o key n parents as) (hlength : before.length = n)
    (hparents : ∀ parent ∈ parents, g.Inherits key parent) : g.Attached o key before as := by
  induction h generalizing before with
  | nil => trivial
  | @cons n parent rest ancestor as hview _ ih =>
      subst hlength
      refine ⟨isAttached_parentAttachment hview (hparents parent List.mem_cons_self), ?_⟩
      exact ih (by simp) fun next hnext => hparents next (List.mem_cons_of_mem parent hnext)

theorem Assembles.attached {table : TableSchema} {exposed parents : List Attachment}
    {v : ViewSchema} (h : g.Assembles o key table exposed parents v) :
    g.Attached o key [] (exposed ++ parents) := by
  refine attached_append.mpr ⟨?_, ?_⟩
  · exact h.exposed_of.attached rfl fun hop hmem => hangs_of_mem_firstHops hmem
  · exact h.parents_of.attached (by simp) fun parent hmem => hmem

end Graph

end Glossary
