import Glossary.Proofs.Strictness
import Glossary.Proofs.ViewTerms

/-!
A schema has one identifier, that of its term, and it comes first. Every joined table brings an
identifier of its own to a view, but the table that the join hangs from has stored it before, under
the same name.
-/

namespace Glossary

/-- The column came in by a statement and identifies nothing by itself. -/
def Column.IsLinked (c : Column) : Prop :=
  c.role ≠ .identifier ∧ c.relation ≠ none

/-- The first column identifies the term, and all others are linked. -/
def IdentifiesOnce (key : Key) (columns : List Column) : Prop :=
  ∃ identifier rest, columns = identifier :: rest ∧ identifier.role = .identifier ∧
    identifier.required = true ∧ identifier.term = key ∧ identifier.relation = none ∧
    ∀ c ∈ rest, c.IsLinked

theorem Column.isLinked_of_carried_eq {c k : Column} (h : k.carried = c.carried)
    (hk : k.IsLinked) : c.IsLinked := by
  have hrole : k.carried.role = c.carried.role := congrArg Column.role h
  have hrelation : k.carried.relation = c.carried.relation := congrArg Column.relation h
  exact ⟨fun hc => hk.1 (hrole.trans hc), fun hc => hk.2 (hrelation.trans hc)⟩

theorem IdentifiesOnce.isLinked {key : Key} {identifier : Column} {rest : List Column}
    (h : IdentifiesOnce key (identifier :: rest)) {c : Column} (hc : c ∈ rest) : c.IsLinked := by
  obtain ⟨_, _, heq, -, -, -, -, hrest⟩ := h
  obtain ⟨-, rfl⟩ := List.cons.inj heq
  exact hrest c hc

namespace Graph

variable {g : Graph} {o : ResolutionOptions} {key : Key} {t table : TableSchema} {v : ViewSchema}
  {exposed parents : List Attachment}

theorem identifierColumn_identifiesOnce (g : Graph) (o : ResolutionOptions) (key : Key)
    {rest : List Column} (hrest : ∀ c ∈ rest, c.IsLinked) :
    IdentifiesOnce key (g.identifierColumn o key :: rest) :=
  ⟨g.identifierColumn o key, rest, rfl, rfl, rfl, rfl, rfl, hrest⟩

theorem isLinked_of_mem_contributions {c : Column} (h : c ∈ g.contributions o key) :
    c = g.identifierColumn o key ∨ c.IsLinked := by
  simp only [contributions, List.mem_cons, List.mem_append, List.mem_map] at h
  rcases h with rfl | ⟨ancestor, -, rfl⟩ | ⟨l, -, rfl⟩
  · exact Or.inl rfl
  · exact Or.inr ⟨by simp [inheritedColumn], by simp [inheritedColumn]⟩
  · refine Or.inr ⟨?_, by simp [referenceColumn]⟩
    cases hscalar : g.isScalar l.target with
    | true => simp [referenceColumn, hscalar]
    | false => simp [referenceColumn, hscalar]

theorem IsTable.identifiesOnce (h : g.IsTable o key t) : IdentifiesOnce key t.columns := by
  obtain ⟨rest, hrest⟩ := List.head?_eq_some_iff.mp h.identifier_eq
  have hnodup := h.nodup
  rw [TableSchema.columnNames, hrest, List.map_cons, List.nodup_cons] at hnodup
  rw [hrest]
  refine identifierColumn_identifiesOnce g o key fun c hc => ?_
  refine (isLinked_of_mem_contributions (h.contributed c ?_)).resolve_left ?_
  · rw [hrest]
    exact List.mem_cons_of_mem _ hc
  · rintro rfl
    exact hnodup.1 (List.mem_map_of_mem hc)

namespace Assembles

theorem columns_find? (h : g.Assembles o key table exposed parents v) {c : ViewColumn}
    (hc : c ∈ v.columns) : ((viewContributions table (exposed ++ parents)).find? fun k =>
      k.name == c.name) = some c := by
  have hfind := Draft.addAll_find? h.columns_of c.name
  rw [List.nil_append] at hfind
  rw [← hfind]
  cases hfound : v.columns.find? fun k => k.name == c.name with
  | none =>
      have hne := List.find?_eq_none.mp hfound c hc
      simp at hne
  | some k =>
      have hname : k.name = c.name := by simpa using List.find?_some hfound
      rw [List.inj_on_of_nodup_map h.wellScoped.names_nodup (List.mem_of_find?_eq_some hfound) hc
        hname]

/-- A column of a view is one of its base table, or the first attachment that has its name brings
it. -/
theorem exists_first (h : g.Assembles o key table exposed parents v) {c : ViewColumn}
    (hc : c ∈ v.columns) : c ∈ table.baseColumns ∨ ∃ before a after,
      exposed ++ parents = before ++ a :: after ∧ c ∈ a.columns ∧
        (∀ k ∈ table.baseColumns, k.name ≠ c.name) ∧
        ∀ p ∈ before, ∀ k ∈ p.columns, k.name ≠ c.name := by
  have hfind := h.columns_find? hc
  rw [viewContributions, List.find?_append] at hfind
  cases hbase : table.baseColumns.find? fun k => k.name == c.name with
  | some k =>
      rw [hbase, Option.some_or] at hfind
      obtain rfl := Option.some.inj hfind
      exact Or.inl (List.mem_of_find?_eq_some hbase)
  | none =>
      rw [hbase, Option.none_or, List.find?_flatMap] at hfind
      obtain ⟨before, a, after, hsplit, ha, hbefore⟩ := List.findSome?_eq_some_iff.mp hfind
      refine Or.inr ⟨before, a, after, hsplit, List.mem_of_find?_eq_some ha, ?_, ?_⟩
      · intro k hk
        simpa using List.find?_eq_none.mp hbase k hk
      · intro p hp k hk
        simpa using List.find?_eq_none.mp (hbefore p hp) k hk

/-- The table that an attachment hangs from is shown before it. -/
theorem exists_standing (h : g.Assembles o key table exposed parents v)
    {before : List Attachment} {a : Attachment} (ha : g.IsAttached o key before a) :
    ∃ t, g.table o a.join.parentTerm = .ok t ∧ ∀ name ∈ t.columnNames,
      (∃ k ∈ table.baseColumns, k.name = name) ∨ ∃ p ∈ before, ∃ k ∈ p.columns, k.name = name := by
  rcases ha.stands with ⟨-, hterm⟩ | ⟨p, hp, n, hop, t, ht, rfl, -, hterm⟩
  · refine ⟨table, hterm ▸ h.table_eq_ok, fun name hname => Or.inl ?_⟩
    obtain ⟨k, hk, rfl⟩ := List.mem_map.mp hname
    exact ⟨_, List.mem_map_of_mem hk, rfl⟩
  · refine ⟨t, hterm ▸ ht, fun name hname => Or.inr ⟨_, hp, ?_⟩⟩
    obtain ⟨k, hk, rfl⟩ := List.mem_map.mp hname
    exact ⟨_, List.mem_map_of_mem hk, rfl⟩

theorem isLinked_of_reads (hembedded : ∀ s ∈ v.ancestors,
      IdentifiesOnce s.term (s.columns.map ViewColumn.toColumn)) {j : Join} {identifier : Column}
    {rest : List Column} (hreads : j.Reads g o v (identifier :: rest)) {c : Column}
    (hc : c ∈ rest) : c.IsLinked := by
  generalize hcolumns : identifier :: rest = columns at hreads
  cases hreads with
  | table _ ht _ =>
      have honce := (isTable_of_table_eq_ok ht).identifiesOnce
      exact (hcolumns ▸ honce).isLinked hc
  | view _ _ hs _ =>
      have honce := hembedded _ hs
      exact (hcolumns ▸ honce).isLinked hc

theorem isLinked_of_first (h : g.Assembles o key table exposed parents v)
    (hembedded : ∀ s ∈ v.ancestors, IdentifiesOnce s.term (s.columns.map ViewColumn.toColumn))
    {before after : List Attachment} {a : Attachment} {c : ViewColumn}
    (hsplit : exposed ++ parents = before ++ a :: after) (hc : c ∈ a.columns)
    (hbase : ∀ k ∈ table.baseColumns, k.name ≠ c.name)
    (hbefore : ∀ p ∈ before, ∀ k ∈ p.columns, k.name ≠ c.name) : c.toColumn.IsLinked := by
  have hattached : g.IsAttached o key before a := Attached.isAttached (hsplit ▸ h.attached)
  have hmem : a ∈ exposed ++ parents := hsplit ▸ List.mem_append_right _ List.mem_cons_self
  obtain ⟨rest, hreads, hcolumns⟩ := h.exists_reads hmem
  have hcarried : c.toColumn.carried ∈ a.columns.map fun c => c.toColumn.carried :=
    List.mem_map_of_mem hc
  rw [hcolumns, List.map_cons] at hcarried
  rcases List.mem_cons.mp hcarried with hidentifier | hrest
  -- the identifier of the joined term comes too late: the table that the join hangs from stores it
  · obtain ⟨t, ht, hshown⟩ := h.exists_standing hattached
    have hname : (g.identifierColumn o a.join.target).name = c.name :=
      (congrArg Column.name hidentifier).symm
    have hstored :=
      (isTable_of_table_eq_ok ht).mem_columnNames_of_storesIdentifier hattached.stores
    rcases hshown _ hstored with ⟨k, hk, hkname⟩ | ⟨p, hp, k, hk, hkname⟩
    · exact absurd (hkname.trans hname) (hbase k hk)
    · exact absurd (hkname.trans hname) (hbefore p hp k hk)
  · obtain ⟨k, hk, hkcarried⟩ := List.mem_map.mp hrest
    exact Column.isLinked_of_carried_eq hkcarried (isLinked_of_reads hembedded hreads hk)

theorem identifiesOnce (h : g.Assembles o key table exposed parents v)
    (hembedded : ∀ s ∈ v.ancestors, IdentifiesOnce s.term (s.columns.map ViewColumn.toColumn)) :
    IdentifiesOnce key (v.columns.map ViewColumn.toColumn) := by
  obtain ⟨others, hothers⟩ := List.head?_eq_some_iff.mp h.identifier_eq
  have hnodup := h.wellScoped.names_nodup
  rw [ViewSchema.columnNames, hothers, List.map_cons, List.nodup_cons] at hnodup
  rw [hothers, List.map_cons]
  refine identifierColumn_identifiesOnce g o key (List.forall_mem_map.mpr fun c hc => ?_)
  have hmem : c ∈ v.columns := hothers ▸ List.mem_cons_of_mem _ hc
  rcases h.exists_first hmem with hbase | ⟨before, a, after, hsplit, ha, hbase, hbefore⟩
  · obtain ⟨rest, hrest⟩ :=
      List.head?_eq_some_iff.mp (isTable_of_table_eq_ok h.table_eq_ok).identifier_eq
    have honce := (isTable_of_table_eq_ok h.table_eq_ok).identifiesOnce
    rw [TableSchema.baseColumns, hrest, List.map_cons] at hbase
    rw [hrest] at honce
    rcases List.mem_cons.mp hbase with rfl | hbase
    · exact absurd (List.mem_map_of_mem hc) hnodup.1
    · obtain ⟨k, hk, rfl⟩ := List.mem_map.mp hbase
      have hlinked : k.IsLinked := honce.isLinked hk
      exact Column.isLinked_of_carried_eq rfl hlinked
  · exact h.isLinked_of_first hembedded hsplit ha hbase hbefore

end Assembles

theorem view_identifiesOnce (h : g.view o key = .ok v) :
    IdentifiesOnce key (v.columns.map ViewColumn.toColumn) := by
  refine view_induction (motive := fun key v =>
    IdentifiesOnce key (v.columns.map ViewColumn.toColumn)) ?_ h
  intro key table exposed parents v h hembedded
  exact h.identifiesOnce hembedded

/-- Every schema has one identifier, that of its term. In a view it comes from the base table, and
no join brings another. -/
theorem schema_identifiesOnce {layer : Layer} {s : Schema} (h : g.schema o layer key = .ok s) :
    IdentifiesOnce key s.columns ∧ ∀ v, s = .view v → ∀ j ∈ v.joins, ∀ c ∈ v.columns,
      c.aliasName = j.aliasName → c.toColumn.IsLinked := by
  cases layer with
  | physical =>
      obtain ⟨t, ht, rfl⟩ := Fallible.exists_of_map_eq_ok h
      exact ⟨(isTable_of_table_eq_ok ht).identifiesOnce, by simp⟩
  | logical =>
      obtain ⟨v, hv, rfl⟩ := Fallible.exists_of_map_eq_ok h
      refine ⟨view_identifiesOnce hv, ?_⟩
      rintro v' hv' j hj c hc halias
      obtain rfl := Schema.view.inj hv'
      obtain ⟨table, exposed, parents, hassembles⟩ := exists_assembles hv
      obtain ⟨rest, hrest⟩ := List.head?_eq_some_iff.mp hassembles.identifier_eq
      have honce := view_identifiesOnce hv
      rw [hrest, List.map_cons] at honce
      rw [hrest] at hc
      rcases List.mem_cons.mp hc with rfl | hc
      · exact absurd halias.symm (hassembles.alias_ne_base hj)
      · exact honce.isLinked (List.mem_map_of_mem hc)

/-- Items and articles are known by one column, which refers to both of them and identifies
neither. -/
theorem bundle_identifiesOnce : ∃ v, bundle.schema .standard .logical "bundle" = .ok (.view v) ∧
    (v.joins.map fun j => (j.targetLabel, j.keyColumn)) =
      [("Item", "item_id"), ("Article", "item_id")] ∧
    v.columnNames = ["bundle_id", "item_id"] ∧
    IdentifiesOnce "bundle" (v.columns.map ViewColumn.toColumn) := by
  have hview : (bundle.view .standard "bundle").map (fun v =>
      (v.joins.map fun j => (j.targetLabel, j.keyColumn), v.columnNames)) =
      .ok ([("Item", "item_id"), ("Article", "item_id")], ["bundle_id", "item_id"]) := by
    decide +kernel
  obtain ⟨v, hv, hvalues⟩ := Fallible.exists_of_map_eq_ok hview
  obtain ⟨hjoins, hnames⟩ := Prod.mk.inj hvalues
  have hschema : bundle.schema .standard .logical "bundle" = .ok (.view v) := by
    rw [schema, hv]
    rfl
  exact ⟨v, hschema, hjoins, hnames, (schema_identifiesOnce hschema).1⟩

end Graph

end Glossary
