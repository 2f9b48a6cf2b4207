import Glossary.Proofs.Evaluation
import Glossary.Proofs.ViewTerms

/-!
Views do not multiply rows. Every join compares with the identifier of what it joins, be it a table
or the view of an ancestor, so a row of the base table makes at most one row of the view, and the
identifier of the term identifies the rows of the view as well.
-/

namespace Glossary

open Sql

section Identifies

variable {α : Type} {column object : String} {rows : List (Row α)}

/-- Rows that come one at most from each of the given rows are identified as these are. -/
theorem Identifies.flatMap {f : Row α → List (Row α)} (h : Identifies column rows)
    (hle : ∀ r ∈ rows, (f r).length ≤ 1) (hsame : ∀ r ∈ rows, ∀ x ∈ f r, x column = r column) :
    Identifies column (rows.flatMap f) where
  not_null := by
    intro x hx
    obtain ⟨r, hr, hx⟩ := List.mem_flatMap.mp hx
    rw [hsame r hr x hx]
    exact h.not_null r hr
  nodup := by
    refine List.Nodup.sublist ?_ h.nodup
    clear h
    induction rows with
    | nil => exact List.Sublist.slnil
    | cons r rows ih =>
        rw [List.forall_mem_cons] at hle hsame
        have hrest := ih hle.2 hsame.2
        rw [List.flatMap_cons, List.map_append, List.map_cons]
        rcases Nat.le_one_iff_eq_zero_or_eq_one.mp hle.1 with hzero | hone
        · rw [List.length_eq_zero_iff.mp hzero]
          exact hrest.cons _
        · obtain ⟨x, hx⟩ := List.length_eq_one_iff.mp hone
          rw [hx, List.map_singleton, hsame.1 x (by simp [hx])]
          exact hrest.cons_cons _

variable [DecidableEq α] {relation : Database α}

theorem Identifies.failures_notNull (h : Identifies column (relation object)) :
    (Check.notNull object column).failures relation = some 0 := by
  simpa [Check.failures, List.countP_eq_zero] using h.not_null

theorem Identifies.failures_unique (h : Identifies column (relation object)) :
    (Check.unique object column).failures relation = some 0 := by
  have hcount := List.nodup_iff_count_le_one.mp h.nodup
  simpa [Check.failures, List.countP_eq_zero] using fun (r : Row α) _ => hcount (r column)

end Identifies

/-- Every table has a first column that identifies its rows. -/
def Graph.Keyed {α : Type} (g : Graph) (o : ResolutionOptions) (db : Database α) : Prop :=
  ∀ key t c, g.declares key = true → g.table o key = .ok t → t.identifier? = some c →
    Identifies c.name (db t.table)

namespace ViewSchema

variable {α : Type} [DecidableEq α] {db : Database α} {v : ViewSchema} {r x : Row α}

/-- What evaluation makes of the rows of the base table. A row makes one row at most, and one
exactly when every join is left. The first column identifies the rows, so that its checks pass. The
query may be read over any relations that hold the tables, and the views of ancestors, under their
names. -/
structure KeepsRows (db : Database α) (v : ViewSchema) : Prop where
  rows_eq : v.rows db = (db v.baseTable).flatMap (v.rowsOf db)
  at_most_one : ∀ r ∈ db v.baseTable, (v.rowsOf db r).length ≤ 1
  exactly_one : (∀ j ∈ v.joins, j.kind = .left) →
    ∀ r ∈ db v.baseTable, (v.rowsOf db r).length = 1
  identified : ∃ c, v.identifier? = some c ∧ Identifies c.name (v.rows db) ∧
    ∀ relation : Database α, relation v.view = v.rows db →
      (Check.notNull v.view c.name).failures relation = some 0 ∧
        (Check.unique v.view c.name).failures relation = some 0
  select_rows : ∀ relation : Database α,
    (∀ name, relation (Name.table name) = db (Name.table name)) →
    (∀ s ∈ v.ancestors, relation s.view = s.rows db) →
      (Select.ofSchema v).rows relation = v.rows db

/-- Joins without structural faults refer to aliases in scope. -/
theorem inScope_of_joinFaults_eq_nil {view : String} {scope : List String} {js : List Join}
    (h : joinFaults view scope js = []) : InScope scope (js.map JoinClause.ofJoin) := by
  induction js generalizing scope with
  | nil => trivial
  | cons j js ih =>
      rw [joinFaults, List.append_eq_nil_iff, List.append_eq_nil_iff] at h
      obtain ⟨⟨hparent, hrepeated⟩, hrest⟩ := h
      refine ⟨rfl, ?_, ?_, ih hrest⟩
      · show j.parentAlias ∈ scope
        simpa using hparent
      · show j.aliasName ∉ scope
        simpa using hrepeated

/-- The joins of a view, each with the rows that it reads. -/
def joinSteps (db : Database α) (v : ViewSchema) : List (JoinClause × List (Row α)) :=
  v.joins.map fun j => (JoinClause.ofJoin j, j.rows db (viewRows db v.ancestors))

theorem rowsOf_eq (db : Database α) (v : ViewSchema) (r : Row α) :
    v.rowsOf db r = (joinAll (v.joinSteps db)
      [Function.update (fun _ => nullRow) v.baseAlias r]).map (Select.ofSchema v).project := by
  rw [rowsOf, Select.evaluate, Select.scopes, joined, Select.ofSchema, List.zip_map', joinSteps]
  rfl

theorem rows_eq_flatMap (db : Database α) (v : ViewSchema) :
    v.rows db = (db v.baseTable).flatMap (v.rowsOf db) := by
  rw [ViewSchema.rows_eq, Select.evaluate, Select.scopes, joinAll_eq_flatMap, List.flatMap_map,
    List.map_flatMap]
  rfl

end ViewSchema

namespace Graph.Assembles

variable {α : Type} [DecidableEq α] {db relation : Database α} {g : Graph} {primitives : Primitives}
  {terms : List Term} {o : ResolutionOptions} {key : Key} {table : TableSchema}
  {exposed parents : List Attachment} {v : ViewSchema} {j : Join} {r x : Row α}

theorem inScope (h : g.Assembles o key table exposed parents v) :
    InScope [baseAlias] ((v.joinSteps db).map Prod.fst) := by
  have hfaults := h.faults_eq_nil
  obtain ⟨identifier, rest, hcolumns, -⟩ := h.wellScoped.identifier_first
  rw [ViewSchema.faults, hcolumns] at hfaults
  simp only [List.append_eq_nil_iff] at hfaults
  rw [ViewSchema.joinSteps, List.map_map, ← h.baseAlias_eq]
  exact ViewSchema.inScope_of_joinFaults_eq_nil hfaults.1.2

/-- The rows of an embedded view are found under its term. -/
theorem lookup_viewRows (h : g.Assembles o key table exposed parents v) {s : ViewSchema}
    (hs : s ∈ v.ancestors) :
    (viewRows db v.ancestors).lookup s.term = some (s.rows db) := by
  have hview := h.exists_view_of_mem_ancestors hs
  have hall : ∀ s' ∈ v.ancestors, s'.term = s.term → s' = s := by
    intro s' hs' hterm
    have hview' := h.exists_view_of_mem_ancestors hs'
    rw [hterm] at hview'
    exact Except.ok.inj (hview'.symm.trans hview)
  rw [viewRows_eq_map]
  generalize v.ancestors = ss at hs hall
  induction ss with
  | nil => cases hs
  | cons s' ss ih =>
      rw [List.forall_mem_cons] at hall
      rw [List.map_cons, List.lookup_cons]
      by_cases hterm : s'.term = s.term
      · simp [hall.1 hterm]
      · have hne : (s.term == s'.term) = false := by simpa using Ne.symm hterm
        rw [hne]
        refine ih ((List.mem_cons.mp hs).resolve_left ?_) hall.2
        rintro rfl
        exact hterm rfl

/-- What a join reads is a table, or the rows of an embedded view. -/
theorem rows_cases (h : g.Assembles o key table exposed parents v) (db : Database α)
    (hj : j ∈ v.joins) :
    (j.table = Name.table (g.label j.target) ∧
        j.rows db (viewRows db v.ancestors) = db (Name.table (g.label j.target))) ∨
      ∃ s ∈ v.ancestors, s.term = j.target ∧ j.table = s.view ∧
        j.rows db (viewRows db v.ancestors) = s.rows db := by
  rcases h.reads hj with ⟨hsource, hname⟩ | ⟨hsource, s, hs, hterm, hname⟩
  · refine Or.inl ⟨hname, ?_⟩
    rw [Join.rows, hsource, hname]
  · refine Or.inr ⟨s, hs, hterm, hname, ?_⟩
    rw [Join.rows, hsource, ← hterm, h.lookup_viewRows hs]
    rfl

/-- A query finds the tables, and the views of ancestors, under their names. -/
theorem select_rows (h : g.Assembles o key table exposed parents v)
    (htables : ∀ name, relation (Name.table name) = db (Name.table name))
    (hviews : ∀ s ∈ v.ancestors, relation s.view = s.rows db) :
    (Select.ofSchema v).rows relation = v.rows db := by
  have hjoined : ((Select.ofSchema v).joins.map fun j => relation j.table) = v.joined db := by
    rw [Select.ofSchema, List.map_map, ViewSchema.joined]
    refine List.map_congr_left fun j hj => ?_
    rcases h.rows_cases db hj with ⟨hname, hrows⟩ | ⟨s, hs, -, hname, hrows⟩
    · rw [hrows, ← htables, ← hname]
      rfl
    · rw [hrows, ← hviews s hs, ← hname]
      rfl
  have hbase : relation v.baseTable = db v.baseTable := by
    rw [h.baseTable_eq, (isTable_of_table_eq_ok h.table_eq_ok).table_eq, htables]
  rw [Select.rows, hjoined, ViewSchema.rows_eq, ← hbase]
  rfl

/-- What a join reads is identified by the column that the join compares with. -/
theorem identifies_rows (h : g.Assembles o key table exposed parents v)
    (hg : build primitives terms = .ok g) (hdb : g.Keyed o db)
    (hviews : ∀ s ∈ v.ancestors, ∃ c, s.identifier? = some c ∧ Identifies c.name (s.rows db))
    (hj : j ∈ v.joins) :
    Identifies j.keyColumn (j.rows db (viewRows db v.ancestors)) := by
  obtain ⟨identifier, rest, hreads, hkey⟩ := h.wellScoped.joins_identify j hj
  rw [hkey]
  generalize hcolumns : identifier :: rest = columns at hreads
  cases hreads with
  | @table t hsource ht hname =>
      have hidentifier : t.identifier? = some identifier := by
        simp [TableSchema.identifier?, ← hcolumns]
      rw [Join.rows, hsource, hname]
      exact hdb j.target t identifier (h.declares_target hg hj) ht hidentifier
  | @view s hsource hs hmem hname =>
      obtain ⟨_, _, _, hancestor⟩ := exists_assembles hs
      obtain ⟨c, hc, hidentifies⟩ := hviews s hmem
      rw [Join.rows, hsource, ← hancestor.term_eq, h.lookup_viewRows hmem]
      obtain ⟨others, hothers⟩ := List.head?_eq_some_iff.mp hc
      rw [hothers, List.map_cons] at hcolumns
      rw [(List.cons.inj hcolumns).1]
      exact hidentifies

/-- A row of the view shows the identifier of the row that it comes from. -/
theorem identifier_of_mem_rowsOf (h : g.Assembles o key table exposed parents v)
    (hx : x ∈ v.rowsOf db r) :
    x (g.identifierColumn o key).name = r (g.identifierColumn o key).name := by
  obtain ⟨rest, hcolumns⟩ := List.head?_eq_some_iff.mp h.identifier_eq
  rw [ViewSchema.rowsOf_eq] at hx
  obtain ⟨s, hs, rfl⟩ := List.mem_map.mp hx
  have hbase := eq_of_mem_joinAll h.inScope hs (List.mem_singleton_self baseAlias)
  rw [h.baseAlias_eq, Function.update_self] at hbase
  rw [← hbase]
  simp [Select.project, Select.ofSchema, hcolumns, Column.shownBy, ColumnRef.read]

theorem keepsRows (h : g.Assembles o key table exposed parents v)
    (hg : build primitives terms = .ok g) (hkey : g.declares key = true) (hdb : g.Keyed o db)
    (hviews : ∀ s ∈ v.ancestors, ∃ c, s.identifier? = some c ∧ Identifies c.name (s.rows db)) :
    v.KeepsRows db := by
  have hsteps : ∀ step ∈ v.joinSteps db, Identifies step.1.key.column step.2 := by
    intro step hstep
    obtain ⟨j, hj, rfl⟩ := List.mem_map.mp hstep
    exact h.identifies_rows hg hdb hviews hj
  have hlength := fun r : Row α => length_joinAll_le_one
    (s := Function.update (fun _ => nullRow) v.baseAlias r) h.inScope hsteps
  have hone : ∀ r, (v.rowsOf db r).length ≤ 1 := by
    intro r
    rw [ViewSchema.rowsOf_eq, List.length_map]
    exact (hlength r).1
  have hidentifies : Identifies (g.identifierColumn o key).name (v.rows db) := by
    rw [ViewSchema.rows_eq_flatMap]
    refine Identifies.flatMap ?_ (fun r _ => hone r) fun r _ x hx => h.identifier_of_mem_rowsOf hx
    rw [h.baseTable_eq]
    exact hdb key table _ hkey h.table_eq_ok (isTable_of_table_eq_ok h.table_eq_ok).identifier_eq
  refine ⟨v.rows_eq_flatMap db, fun r _ => hone r, ?_, ?_, ?_⟩
  · intro hleft r _
    rw [ViewSchema.rowsOf_eq, List.length_map]
    refine (hlength r).2 fun step hstep => ?_
    obtain ⟨j, hj, rfl⟩ := List.mem_map.mp hstep
    exact hleft j hj
  · refine ⟨_, h.identifier_eq, hidentifies, fun relation hrelation => ?_⟩
    rw [← hrelation] at hidentifies
    exact ⟨hidentifies.failures_notNull, hidentifies.failures_unique⟩
  · exact fun relation htables hnames => h.select_rows htables hnames

end Graph.Assembles

namespace Graph

/-- Views do not multiply the rows of tables that have a key, and they have that key too. -/
theorem view_keepsRows {g : Graph} {primitives : Primitives} {terms : List Term}
    {o : ResolutionOptions} {key : Key} {v : ViewSchema} {α : Type} [DecidableEq α]
    {db : Database α} (hg : build primitives terms = .ok g) (hkey : g.declares key = true)
    (hv : g.view o key = .ok v) (hdb : g.Keyed o db) : v.KeepsRows db := by
  refine view_induction (motive := fun key v => g.declares key = true → v.KeepsRows db) ?_ hv hkey
  intro key table exposed parents v h hviews hkey
  refine h.keepsRows hg hkey hdb fun s hs => ?_
  have hparent := (h.exists_join_of_mem_ancestors hs).1
  have hdeclared := declares_of_reflTransGen hg (Relation.ReflTransGen.single hparent) hkey
  obtain ⟨c, hc, hidentifies, -⟩ := (hviews s hs hdeclared).identified
  exact ⟨c, hc, hidentifies⟩

end Graph

theorem build_staffTerms :
    Graph.build (Primitives.ofNames builtInPrimitives) staffTerms = .ok staff := by
  rfl

/-- Every table has two rows, the one full of ones and the other full of twos. -/
def onesAndTwos : Database ℕ :=
  fun _ => [fun _ => some 1, fun _ => some 2]

theorem keyed_onesAndTwos (g : Graph) (o : ResolutionOptions) : g.Keyed o onesAndTwos := by
  intro key t c _ _ _
  exact ⟨by simp [onesAndTwos], by simp [onesAndTwos]⟩

theorem manager_keepsRows : ∃ v,
    Graph.build (Primitives.ofNames builtInPrimitives) staffTerms = .ok staff ∧
      staff.declares "manager" = true ∧ staff.view .standard "manager" = .ok v ∧
      staff.Keyed .standard onesAndTwos ∧ v.KeepsRows onesAndTwos := by
  obtain ⟨v, hv, -⟩ := Fallible.exists_of_map_eq_ok staff_view_manager
  have hdeclared : staff.declares "manager" = true := by decide +kernel
  have hkeyed := keyed_onesAndTwos staff .standard
  exact ⟨v, build_staffTerms, hdeclared, hv, hkeyed,
    Graph.view_keepsRows build_staffTerms hdeclared hv hkeyed⟩

end Glossary
