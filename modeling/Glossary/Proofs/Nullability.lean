import Glossary.Proofs.Scripts
import Glossary.Proofs.ViewForest
import Glossary.Proofs.ViewScope

/-!
A view knows which of its columns may be null. A join is optional exactly when the way from it to
the base table passes a statement `has a`, and a column is required exactly when what supplies it is
required and no join on that way is optional.
-/

namespace Glossary

open Fallible

/-- The joins on the way from an alias to the base table, the one with that alias first. -/
inductive ViewSchema.Chain (v : ViewSchema) : String → List Join → Prop
  | base : Chain v Glossary.baseAlias []
  | step {j : Join} {js : List Join} : j ∈ v.joins → Chain v j.parentAlias js →
      Chain v j.aliasName (j :: js)

/-- The column of that name in the table or view that stands at the alias of `c`. -/
def ViewSchema.SuppliedBy (g : Graph) (o : ResolutionOptions) (v : ViewSchema) (c : ViewColumn)
    (k : Column) : Prop :=
  ∃ columns, v.Supplies g o c.aliasName columns ∧ k ∈ columns ∧ k.name = c.name

/-- A left join can turn the column of that name to null: one on the way to the base table, or one
inside the view of an ancestor that supplies the column. -/
inductive ViewSchema.BehindLeftJoin : ViewSchema → String → Prop
  | chain {v : ViewSchema} {c : ViewColumn} {js : List Join} {i : Join} : c ∈ v.columns →
      v.Chain c.aliasName js → i ∈ js → i.kind = .left → BehindLeftJoin v c.name
  | embedded {v s : ViewSchema} {c : ViewColumn} {j : Join} : c ∈ v.columns → j ∈ v.joins →
      j.aliasName = c.aliasName → j.source = .view → s ∈ v.ancestors → s.term = j.target →
      BehindLeftJoin s c.name → BehindLeftJoin v c.name

/-- The nullability rules for a view. -/
structure ViewSchema.TracksNulls (g : Graph) (o : ResolutionOptions) (v : ViewSchema) : Prop where
  joins_chained : ∀ j ∈ v.joins, ∃ js, v.Chain j.aliasName js
  left_iff : ∀ j ∈ v.joins, ∀ js, v.Chain j.aliasName js →
    (j.kind = .left ↔ ∃ i ∈ js, i.relation = .composes)
  columns_chained : ∀ c ∈ v.columns, ∃ js, v.Chain c.aliasName js
  columns_supplied : ∀ c ∈ v.columns, ∃ k, v.SuppliedBy g o c k
  required_iff : ∀ c ∈ v.columns, ∀ k js, v.SuppliedBy g o c k → v.Chain c.aliasName js →
    (c.required = true ↔ k.required = true ∧ ∀ i ∈ js, i.kind ≠ .left)
  notNull_checked : ∀ (generator : Sql.Generator) (script : Sql.Script),
    generator.viewScript v = .ok script → ∀ a ∈ script.assertions, ∀ object column,
      a.check = .notNull object column →
        object = v.view ∧ column ∈ v.columnNames ∧ ¬ v.BehindLeftJoin column

/-- A join from the base table is left when it follows `has a`, and any other join is what the one
is that it hangs from. -/
def Join.PassesOn (js : List Join) (j : Join) : Prop :=
  (j.parentAlias = baseAlias ∧ (j.kind = .left ↔ j.relation = .composes)) ∨
    ∃ i ∈ js, i.aliasName = j.parentAlias ∧ (j.kind = .left ↔ i.kind = .left) ∧
      j.relation ≠ .composes

/-- What makes the join of a hop pass on how its parent is joined. -/
def Hop.PassesOn (js : List Join) (hop : Hop) : Prop :=
  (hop.parentAlias = baseAlias ∧ (hop.isOptional = true ↔ hop.relation = .composes)) ∨
    ∃ i ∈ js, i.aliasName = hop.parentAlias ∧ (hop.isOptional = true ↔ i.kind = .left) ∧
      hop.relation ≠ .composes

namespace Graph

variable {g : Graph} {o : ResolutionOptions} {key : Key} {n : Nat} {hop : Hop} {hops : List Hop}
  {path : List Key} {tables as : List Attachment} {a t : Attachment} {js : List Join}

theorem tableAttachment_kind_eq_left_iff {table : TableSchema} :
    (g.tableAttachment n hop table).join.kind = .left ↔ hop.isOptional = true := by
  unfold tableAttachment
  cases hop.isOptional with
  | true => simp
  | false => simp

theorem passesOn_tableAttachment {table : TableSchema} (h : hop.PassesOn js) :
    (g.tableAttachment n hop table).join.PassesOn js := by
  unfold Join.PassesOn
  rw [tableAttachment_kind_eq_left_iff]
  exact h

theorem TablesJoined.kind_eq_left_iff (h : g.TablesJoined o n (g.arrivalHops o n hop) tables)
    (ht : t ∈ tables) : t.join.kind = .left ↔ hop.isOptional = true := by
  obtain ⟨m, next, table, hnext, -, rfl⟩ := h.exists_table ht
  rw [tableAttachment_kind_eq_left_iff]
  rcases List.mem_cons.mp hnext with rfl | hnext
  · rfl
  · obtain ⟨ancestor, -, rfl⟩ := List.mem_map.mp hnext
    rfl

theorem TablesJoined.passesOn (h : g.TablesJoined o n (g.arrivalHops o n hop) tables)
    (hjs : tables.map Attachment.join ⊆ js) (hhop : hop.PassesOn js) (ht : t ∈ tables) :
    t.join.PassesOn js := by
  obtain ⟨m, next, table, hnext, -, rfl⟩ := h.exists_table ht
  apply passesOn_tableAttachment
  rcases List.mem_cons.mp hnext with rfl | hnext
  · exact hhop
  · obtain ⟨ancestor, -, rfl⟩ := List.mem_map.mp hnext
    obtain ⟨first, ancestors, rfl, harrives⟩ := h.exists_arrives
    have hfirst : first ∈ first :: ancestors := List.mem_cons_self
    refine Or.inr ⟨first.join, hjs (List.mem_map_of_mem hfirst), harrives.alias_eq, ?_, ?_⟩
    · exact (h.kind_eq_left_iff hfirst).symm
    · simp [ancestorHop]

theorem TablesJoined.passesOn_onwardHops (h : g.TablesJoined o n (g.arrivalHops o n hop) tables)
    (hjs : tables.map Attachment.join ⊆ js) {next : Hop}
    (hnext : next ∈ g.onwardHops o hop tables) : next.PassesOn js := by
  obtain ⟨t, ht, hnext⟩ := List.mem_flatMap.mp hnext
  obtain ⟨l, hl, rfl⟩ := List.mem_map.mp hnext
  refine Or.inr ⟨t.join, hjs (List.mem_map_of_mem ht), rfl, (h.kind_eq_left_iff ht).symm, ?_⟩
  simp [referenceHop, relation_of_mem_requirements hl]

theorem Exposed.passesOn (h : g.Exposed o path n hops as) (hjs : as.map Attachment.join ⊆ js)
    (hhops : ∀ hop ∈ hops, hop.PassesOn js) (ha : a ∈ as) : a.join.PassesOn js := by
  induction h with
  | nil => cases ha
  | @cons path n hop others tables below after _ htables _ _ ihBelow ihAfter =>
      simp only [List.map_append, List.append_subset] at hjs
      obtain ⟨⟨hjsTables, hjsBelow⟩, hjsAfter⟩ := hjs
      rcases List.mem_append.mp ha with ha | ha
      · rcases List.mem_append.mp ha with ha | ha
        · exact htables.passesOn hjsTables (hhops hop List.mem_cons_self) ha
        · apply ihBelow hjsBelow _ ha
          intro next hnext
          exact htables.passesOn_onwardHops hjsTables hnext
      · apply ihAfter hjsAfter _ ha
        intro next hnext
        exact hhops next (List.mem_cons_of_mem hop hnext)

theorem passesOn_of_mem_firstHops (h : hop ∈ g.firstHops o key) : hop.PassesOn js := by
  obtain ⟨l, -, rfl⟩ := List.mem_map.mp h
  exact Or.inl ⟨rfl, by simp [referenceHop]⟩

theorem ParentsJoined.exists_parent {parents : List Key}
    (h : g.ParentsJoined o key n parents as) (ha : a ∈ as) :
    ∃ m, ∃ parent ∈ parents, ∃ ancestor, g.view o parent = .ok ancestor ∧
      a = g.parentAttachment o key m parent ancestor := by
  induction h with
  | nil => cases ha
  | cons hview _ ih =>
      rcases List.mem_cons.mp ha with rfl | ha
      · exact ⟨_, _, List.mem_cons_self, _, hview, rfl⟩
      · obtain ⟨m, parent, hparent, ancestor, hancestor, heq⟩ := ih ha
        exact ⟨m, parent, List.mem_cons_of_mem _ hparent, ancestor, hancestor, heq⟩

theorem Exposed.exists_table (h : g.Exposed o path n hops as) (ha : a ∈ as) :
    ∃ m hop table, g.table o hop.target = .ok table ∧ a = g.tableAttachment m hop table := by
  induction h with
  | nil => cases ha
  | cons _ htables _ _ ihBelow ihAfter =>
      rcases List.mem_append.mp ha with ha | ha
      · rcases List.mem_append.mp ha with ha | ha
        · obtain ⟨m, hop, table, -, htable, heq⟩ := htables.exists_table ha
          exact ⟨m, hop, table, htable, heq⟩
        · exact ihBelow ha
      · exact ihAfter ha

theorem reads_unique {v : ViewSchema} {j : Join} {columns columns' : List Column}
    (h : j.Reads g o v columns) (h' : j.Reads g o v columns') : columns = columns' := by
  cases h with
  | table hsource ht _ =>
      cases h' with
      | table _ ht' _ => exact congrArg TableSchema.columns (Except.ok.inj (ht.symm.trans ht'))
      | view hsource' _ _ _ => cases hsource.symm.trans hsource'
  | view hsource hs _ _ =>
      cases h' with
      | table hsource' _ _ => cases hsource.symm.trans hsource'
      | view _ hs' _ _ => rw [Except.ok.inj (hs.symm.trans hs')]

theorem nodup_of_reads {v : ViewSchema} {j : Join} {columns : List Column}
    (h : j.Reads g o v columns) : (columns.map Column.name).Nodup := by
  cases h with
  | table _ ht _ => exact (isTable_of_table_eq_ok ht).nodup
  | view _ hs _ _ =>
      obtain ⟨table, exposed, parents, hassembles⟩ := exists_assembles hs
      have hnodup := hassembles.wellScoped.names_nodup
      rw [List.map_map]
      exact hnodup

theorem nodup_of_supplies {v : ViewSchema} {x : String} {columns : List Column}
    (h : v.Supplies g o x columns) : (columns.map Column.name).Nodup := by
  cases h with
  | base ht _ => exact (isTable_of_table_eq_ok ht).nodup
  | join _ hreads => exact nodup_of_reads hreads

/-- A shown column is required when the column of the table is and the table is not joined left. -/
theorem exists_supplied_tableAttachment {table : TableSchema} {c : ViewColumn}
    (hc : c ∈ (g.tableAttachment n hop table).columns) :
    ∃ k ∈ table.columns, k.name = c.name ∧ (c.required = true ↔
      k.required = true ∧ (g.tableAttachment n hop table).join.kind ≠ .left) := by
  obtain ⟨k, hk, rfl⟩ := List.mem_map.mp hc
  refine ⟨k, hk, rfl, ?_⟩
  rw [Ne, tableAttachment_kind_eq_left_iff]
  simp [Column.shownBy]

theorem exists_supplied_parentAttachment {parent : Key} {ancestor : ViewSchema} {c : ViewColumn}
    (hc : c ∈ (g.parentAttachment o key n parent ancestor).columns) :
    ∃ k ∈ ancestor.columns, k.name = c.name ∧ k.required = c.required := by
  obtain ⟨k, hk, rfl⟩ := List.mem_map.mp hc
  exact ⟨k, hk, rfl, rfl⟩

namespace Assembles

variable {table : TableSchema} {exposed parents : List Attachment} {v : ViewSchema} {j : Join}

theorem passesOn (h : g.Assembles o key table exposed parents v) (hj : j ∈ v.joins) :
    j.PassesOn v.joins := by
  have hjoins := h.joins_eq
  rw [hjoins] at hj
  obtain ⟨a, ha, rfl⟩ := List.mem_map.mp hj
  rcases List.mem_append.mp ha with ha | ha
  · apply h.exposed_of.passesOn _ (fun hop hhop => passesOn_of_mem_firstHops hhop) ha
    rw [hjoins, List.map_append]
    exact List.subset_append_left _ _
  · obtain ⟨m, parent, -, ancestor, -, rfl⟩ := h.parents_of.exists_parent ha
    exact Or.inl ⟨rfl, by simp [parentAttachment]⟩

theorem alias_ne_base (h : g.Assembles o key table exposed parents v) (hj : j ∈ v.joins) :
    j.aliasName ≠ baseAlias := by
  rw [← h.baseAlias_eq]
  exact h.isWellFormed.aliases_ne j hj

theorem eq_of_alias_eq (h : g.Assembles o key table exposed parents v) (hj : j ∈ v.joins)
    {i : Join} (hi : i ∈ v.joins) (halias : i.aliasName = j.aliasName) : i = j :=
  List.inj_on_of_nodup_map h.isWellFormed.aliases_nodup hi hj halias

/-- A join hangs from the base table or from an earlier join, so the way to the base table ends. -/
theorem exists_chain (h : g.Assembles o key table exposed parents v) (hj : j ∈ v.joins) :
    ∃ js, v.Chain j.aliasName js := by
  obtain ⟨n, hn⟩ := List.mem_iff_getElem?.mp hj
  clear hj
  induction n using Nat.strong_induction_on generalizing j with
  | _ n ih =>
      have hj : j ∈ v.joins := List.mem_of_getElem? hn
      obtain ⟨t, -, hstands, -⟩ := h.wellScoped.joins_hang n j hn
      rcases hstands with ⟨hbase, -⟩ | ⟨m, hm, i, hi, halias, -⟩
      · exact ⟨[j], .step hj (hbase ▸ .base)⟩
      · obtain ⟨js, hjs⟩ := ih m hm hi
        exact ⟨j :: js, .step hj (halias ▸ hjs)⟩

theorem chain_base (h : g.Assembles o key table exposed parents v) {js : List Join}
    (hchain : v.Chain baseAlias js) : js = [] := by
  generalize hx : baseAlias = x at hchain
  cases hchain with
  | base => rfl
  | step hj _ => exact absurd hx.symm (h.alias_ne_base hj)

theorem chain_join (h : g.Assembles o key table exposed parents v) (hj : j ∈ v.joins)
    {js : List Join} (hchain : v.Chain j.aliasName js) :
    ∃ rest, js = j :: rest ∧ v.Chain j.parentAlias rest := by
  generalize hx : j.aliasName = x at hchain
  cases hchain with
  | base => exact absurd hx (h.alias_ne_base hj)
  | @step i rest hi hrest =>
      obtain rfl := h.eq_of_alias_eq hj hi hx.symm
      exact ⟨rest, rfl, hrest⟩

theorem exists_read (h : g.Assembles o key table exposed parents v) (ha : a ∈ exposed ++ parents)
    {c : ViewColumn} (hc : c ∈ a.columns) :
    ∃ k, (∃ columns, a.join.Reads g o v columns ∧ k ∈ columns ∧ k.name = c.name) ∧
      (c.required = true ↔ k.required = true ∧ a.join.kind ≠ .left) := by
  rcases List.mem_append.mp ha with hexposed | hparent
  · obtain ⟨m, hop, t, ht, rfl⟩ := h.exposed_of.exists_table hexposed
    obtain ⟨k, hk, hname, hrequired⟩ := exists_supplied_tableAttachment hc
    exact ⟨k, ⟨t.columns, .table rfl ht rfl, hk, hname⟩, hrequired⟩
  · obtain ⟨m, parent, -, s, hs, rfl⟩ := h.parents_of.exists_parent hparent
    obtain ⟨k, hk, hname, hrequired⟩ := exists_supplied_parentAttachment hc
    have hinner : (g.parentAttachment o key m parent s).join.kind ≠ .left := by
      simp [parentAttachment]
    cases hbare : s.joins.isEmpty with
    | true =>
        -- the bare table of the parent stands there, and the view of the parent only repeats it
        obtain ⟨t, _, _, hassembles⟩ := exists_assembles hs
        rw [hassembles.columns_eq_of_isEmpty hbare] at hk
        obtain ⟨own, hown, rfl⟩ := List.mem_map.mp hk
        refine ⟨own, ⟨t.columns, .table ?_ hassembles.table_eq_ok ?_, hown, hname⟩, ?_⟩
        · simp [parentAttachment, hbare]
        · simp [parentAttachment, hbare, hassembles.baseTable_eq]
        · rw [← hrequired]
          simp [Column.shownBy, hinner]
    | false =>
        refine ⟨k.toColumn, ⟨s.columns.map ViewColumn.toColumn, .view ?_ hs ?_ ?_, ?_, hname⟩, ?_⟩
        · simp [parentAttachment, hbare]
        · rw [h.ancestors_eq]
          exact List.mem_flatMap.mpr ⟨_, ha, by simp [parentAttachment, hbare]⟩
        · simp [parentAttachment, hbare]
        · exact List.mem_map_of_mem hk
        · rw [← hrequired]
          exact (and_iff_left hinner).symm

/-- Along a chain the joins are left exactly from the top down to where a statement `has a` is
followed. -/
theorem left_iff_of_chain (h : g.Assembles o key table exposed parents v) (hj : j ∈ v.joins)
    {js : List Join} (hchain : v.Chain j.aliasName js) :
    (j.kind = .left ↔ ∃ i ∈ js, i.relation = .composes) ∧
      (j.kind = .left ↔ ∃ i ∈ js, i.kind = .left) := by
  obtain ⟨rest, rfl, hrest⟩ := h.chain_join hj hchain
  clear hchain
  -- up the chain: what holds of the join next above passes on to the join that hangs from it
  induction rest generalizing j with
  | nil =>
      rcases h.passesOn hj with ⟨-, hkind⟩ | ⟨i, hi, halias, -, -⟩
      · simp [hkind]
      · rw [← halias] at hrest
        obtain ⟨_, hnil, -⟩ := h.chain_join hi hrest
        cases hnil
  | cons i rest ih =>
      rcases h.passesOn hj with ⟨hbase, -⟩ | ⟨i', hi, halias, hkind, hrelation⟩
      · rw [hbase] at hrest
        cases h.chain_base hrest
      · rw [← halias] at hrest
        obtain ⟨_, heq, hrest⟩ := h.chain_join hi hrest
        obtain ⟨rfl, rfl⟩ := List.cons.inj heq
        obtain ⟨hcomposes, hleft⟩ := ih hi hrest
        constructor
        · rw [List.exists_mem_cons_iff _ j, or_iff_right hrelation, ← hcomposes, hkind]
        · rw [List.exists_mem_cons_iff _ j, ← hleft, ← hkind, or_self]

/-- An alias of a view stands for one table or view. -/
theorem supplies_unique (h : g.Assembles o key table exposed parents v) {x : String}
    {columns columns' : List Column} (hx : v.Supplies g o x columns)
    (hx' : v.Supplies g o x columns') : columns = columns' := by
  cases hx with
  | base ht _ =>
      generalize hy : baseAlias = y at hx'
      cases hx' with
      | base ht' _ => exact congrArg TableSchema.columns (Except.ok.inj (ht.symm.trans ht'))
      | join hj _ => exact absurd hy.symm (h.alias_ne_base hj)
  | @join j _ hj hreads =>
      generalize hy : j.aliasName = y at hx'
      cases hx' with
      | base _ _ => exact absurd hy (h.alias_ne_base hj)
      | join hj' hreads' =>
          obtain rfl := h.eq_of_alias_eq hj hj' hy.symm
          exact reads_unique hreads hreads'

theorem supplies_view (h : g.Assembles o key table exposed parents v) (hj : j ∈ v.joins)
    (hsource : j.source = .view) {s : ViewSchema} (hs : g.view o j.target = .ok s)
    {columns : List Column} (hsupplies : v.Supplies g o j.aliasName columns) :
    columns = s.columns.map ViewColumn.toColumn := by
  generalize hx : j.aliasName = x at hsupplies
  cases hsupplies with
  | base _ _ => exact absurd hx (h.alias_ne_base hj)
  | join hi hreads =>
      obtain rfl := h.eq_of_alias_eq hj hi hx.symm
      cases hreads with
      | table hsource' _ _ => cases hsource.symm.trans hsource'
      | view _ hs' _ _ => rw [Except.ok.inj (hs.symm.trans hs')]

/-- A column of a view is required when the one that supplies it is and no left join lies
between. -/
theorem exists_supplied (h : g.Assembles o key table exposed parents v) {c : ViewColumn}
    (hc : c ∈ v.columns) :
    ∃ k, v.SuppliedBy g o c k ∧ ((c.aliasName = baseAlias ∧ c.required = k.required) ∨
      ∃ j ∈ v.joins, c.aliasName = j.aliasName ∧
        (c.required = true ↔ k.required = true ∧ j.kind ≠ .left)) := by
  rcases (Draft.addAll_extends h.columns_of).contributed c hc with hc | hc
  · cases hc
  rcases List.mem_append.mp hc with hc | hc
  · obtain ⟨k, hk, rfl⟩ := List.mem_map.mp hc
    have hsupplies := ViewSchema.Supplies.base (h.term_eq ▸ h.table_eq_ok) h.baseTable_eq
    exact ⟨k, ⟨_, hsupplies, hk, rfl⟩, Or.inl ⟨rfl, by simp [Column.shownBy]⟩⟩
  · obtain ⟨a, ha, hc⟩ := List.mem_flatMap.mp hc
    obtain ⟨before, hattached⟩ := h.isAttached ha
    obtain ⟨k, ⟨columns, hreads, hk, hname⟩, hrequired⟩ := h.exists_read ha hc
    refine ⟨k, ⟨columns, ?_, hk, hname⟩, Or.inr ⟨a.join, h.mem_joins ha, ?_, hrequired⟩⟩
    · rw [hattached.shown c hc]
      exact .join (h.mem_joins ha) hreads
    · exact hattached.shown c hc

theorem suppliedBy_unique (h : g.Assembles o key table exposed parents v) {c : ViewColumn}
    {k k' : Column} (hk : v.SuppliedBy g o c k) (hk' : v.SuppliedBy g o c k') : k = k' := by
  obtain ⟨columns, hsupplies, hmem, hname⟩ := hk
  obtain ⟨columns', hsupplies', hmem', hname'⟩ := hk'
  obtain rfl := h.supplies_unique hsupplies hsupplies'
  exact List.inj_on_of_nodup_map (nodup_of_supplies hsupplies) hmem hmem'
    (hname.trans hname'.symm)

theorem required_iff (h : g.Assembles o key table exposed parents v) {c : ViewColumn}
    (hc : c ∈ v.columns) {k : Column} (hk : v.SuppliedBy g o c k) {js : List Join}
    (hchain : v.Chain c.aliasName js) :
    c.required = true ↔ k.required = true ∧ ∀ i ∈ js, i.kind ≠ .left := by
  obtain ⟨k', hk', hrequired⟩ := h.exists_supplied hc
  obtain rfl := h.suppliedBy_unique hk hk'
  rcases hrequired with ⟨halias, hrequired⟩ | ⟨j, hj, halias, hrequired⟩
  · rw [halias] at hchain
    obtain rfl := h.chain_base hchain
    simp [hrequired]
  · rw [halias] at hchain
    rw [hrequired, Ne, (h.left_iff_of_chain hj hchain).2]
    simp

theorem columns_chained (h : g.Assembles o key table exposed parents v) {c : ViewColumn}
    (hc : c ∈ v.columns) : ∃ js, v.Chain c.aliasName js := by
  obtain ⟨k, -, hrequired⟩ := h.exists_supplied hc
  rcases hrequired with ⟨halias, -⟩ | ⟨j, hj, halias, -⟩
  · exact ⟨[], halias ▸ .base⟩
  · rw [halias]
    exact h.exists_chain hj

theorem exists_view_of_mem_ancestors (h : g.Assembles o key table exposed parents v)
    {s : ViewSchema} (hs : s ∈ v.ancestors) : g.view o s.term = .ok s := by
  rw [h.ancestors_eq] at hs
  obtain ⟨a, ha, hs⟩ := List.mem_flatMap.mp hs
  rcases List.mem_append.mp ha with ha | ha
  · obtain ⟨m, hop, t, -, rfl⟩ := h.exposed_of.exists_table ha
    simp [tableAttachment] at hs
  · obtain ⟨m, parent, -, ancestor, hview, rfl⟩ := h.parents_of.exists_parent ha
    have heq : s = ancestor := by
      cases hbare : ancestor.joins.isEmpty with
      | true => simp [parentAttachment, hbare] at hs
      | false => simpa [parentAttachment, hbare, eq_comm] using hs
    obtain ⟨_, _, _, hassembles⟩ := exists_assembles hview
    rw [heq, hassembles.term_eq]
    exact hview

end Assembles

/-- A column that some left join can turn to null is not required. -/
theorem not_behindLeftJoin {v : ViewSchema} {name : String} (h : v.BehindLeftJoin name)
    (hv : ∃ key, g.view o key = .ok v) :
    ∀ c ∈ v.columns, c.name = name → ¬ c.required = true := by
  induction h with
  | @chain v c js i hc hchain hi hleft =>
      intro c' hc' hname hrequired
      obtain ⟨key, hv⟩ := hv
      obtain ⟨table, exposed, parents, h⟩ := exists_assembles hv
      obtain rfl := List.inj_on_of_nodup_map h.wellScoped.names_nodup hc' hc hname
      obtain ⟨k, hk, -⟩ := h.exists_supplied hc'
      exact ((h.required_iff hc' hk hchain).mp hrequired).2 i hi hleft
  | @embedded v s c j hc hj halias hsource hs hterm _ ih =>
      intro c' hc' hname hrequired
      obtain ⟨key, hv⟩ := hv
      obtain ⟨table, exposed, parents, h⟩ := exists_assembles hv
      obtain rfl := List.inj_on_of_nodup_map h.wellScoped.names_nodup hc' hc hname
      have hview := h.exists_view_of_mem_ancestors hs
      obtain ⟨k, hk, -⟩ := h.exists_supplied hc'
      obtain ⟨js, hchain⟩ := h.columns_chained hc'
      -- the column is supplied by the view of the ancestor, where it is not required
      have hkrequired := ((h.required_iff hc' hk hchain).mp hrequired).1
      obtain ⟨columns, hsupplies, hmem, hkname⟩ := hk
      rw [← halias] at hsupplies
      rw [h.supplies_view hj hsource (hterm ▸ hview) hsupplies] at hmem
      obtain ⟨shown, hshown, rfl⟩ := List.mem_map.mp hmem
      exact ih ⟨s.term, hview⟩ shown hshown hkname hkrequired

/-- The null checks of a view are about required columns. -/
theorem Assembles.notNull_checked {table : TableSchema} {exposed parents : List Attachment}
    {v : ViewSchema} (h : g.Assembles o key table exposed parents v) {generator : Sql.Generator}
    {script : Sql.Script} (hscript : generator.viewScript v = .ok script) {a : Sql.Assertion}
    (ha : a ∈ script.assertions) {object column : String}
    (hcheck : a.check = .notNull object column) :
    object = v.view ∧ ∃ c ∈ v.columns, c.name = column ∧ c.required = true := by
  obtain ⟨⟨⟩, -, hscript⟩ := bind_eq_ok_iff.mp hscript
  obtain ⟨⟨⟩, -, hscript⟩ := bind_eq_ok_iff.mp hscript
  obtain ⟨hobject, c, hc, hname, hrequired⟩ :=
    Sql.Script.exists_column_of_notNull hscript ha hcheck
  refine ⟨hobject, c, hc, hname, ?_⟩
  rcases hrequired with hfirst | hrequired
  · obtain rfl := Option.some.inj (hfirst.symm.trans h.identifier_eq)
    rfl
  · exact hrequired

/-- Whether a join is optional and a column required follows from the way to the base table, and
only what no left join can turn to null is checked for null. -/
theorem view_tracksNulls {v : ViewSchema} (hv : g.view o key = .ok v) : v.TracksNulls g o := by
  obtain ⟨table, exposed, parents, h⟩ := exists_assembles hv
  constructor
  case joins_chained => exact fun j hj => h.exists_chain hj
  case left_iff => exact fun j hj js hchain => (h.left_iff_of_chain hj hchain).1
  case columns_chained => exact fun c hc => h.columns_chained hc
  case columns_supplied =>
    intro c hc
    obtain ⟨k, hk, -⟩ := h.exists_supplied hc
    exact ⟨k, hk⟩
  case required_iff => exact fun c hc k js hk hchain => h.required_iff hc hk hchain
  case notNull_checked =>
    intro generator script hscript a ha object column hcheck
    obtain ⟨hobject, c, hc, hname, hrequired⟩ := h.notNull_checked hscript ha hcheck
    refine ⟨hobject, List.mem_map.mpr ⟨c, hc, hname⟩, ?_⟩
    intro hbehind
    exact not_behindLeftJoin hbehind ⟨key, hv⟩ c hc hname hrequired

theorem report_tracksNulls : ∃ v, staff.view .standard "report" = .ok v ∧
    v.TracksNulls staff .standard := by
  obtain ⟨v, hv, -⟩ := exists_of_map_eq_ok staff_view_report
  exact ⟨v, hv, view_tracksNulls hv⟩

end Graph

end Glossary
