import Glossary.Proofs.RowSurvival

/-!
Which integrity checks of a view can fail. A check looks for values that a join refers to and that
the table of the joined term does not have. When it reads the view over an inner join it never finds
one, as the join has dropped the very rows that it looks for. When it reads the table of the term
that refers, it finds one as soon as nothing is there to refer to.
-/

namespace Glossary

open Fallible Sql

/-- The view shows the column that a join refers to, from the alias at which the join reads it. -/
def ViewSchema.Shows (v : ViewSchema) (j : Join) : Prop :=
  ∃ c, v.column? j.fkColumn = some c ∧ c.aliasName = j.parentAlias

/-- There are tables with keys over which the check counts failures. -/
def ViewSchema.CanFail (g : Graph) (o : ResolutionOptions) (v : ViewSchema) (c : Check) : Prop :=
  ∃ (α : Type) (_ : DecidableEq α) (db : Database α), g.Keyed o db ∧
    ∃ n, c.failures (Function.update db v.view (v.rows db)) = some n ∧ 0 < n

section Checks

variable {α : Type} {object column table key : String} {v : ViewSchema} {j : Join} {s : Scope α}

theorem ViewSchema.project_eq {name : String} {c : ViewColumn} (hc : v.column? name = some c) :
    (Select.ofSchema v).project s name = s c.aliasName name := by
  have hname : c.name = name := by simpa using List.find?_some hc
  have hfind : ((Select.ofSchema v).output.find? fun r => r.column == name) =
      some ⟨c.aliasName, c.name⟩ := by
    rw [Select.ofSchema, List.find?_map]
    exact congrArg (Option.map fun c : ViewColumn => (⟨c.aliasName, c.name⟩ : ColumnRef)) hc
  rw [Select.project, hfind, Option.bind_some, ColumnRef.read, hname]

variable [DecidableEq α] {relation : Database α}

theorem Sql.Check.failures_existsIn_pos_iff :
    (∃ n, (Check.existsIn object column table key).failures relation = some n ∧ 0 < n) ↔
      ∃ r ∈ relation object, ∃ x, r column = some x ∧ ∀ t ∈ relation table, t key ≠ some x := by
  simp only [Check.failures, Option.some.injEq, exists_eq_left', List.countP_pos_iff]
  refine exists_congr fun r => and_congr_right fun _ => ?_
  cases r column with
  | none => simp
  | some x => simp

theorem ViewSchema.shows_iff :
    v.Shows j ↔ ((v.column? j.fkColumn).any fun c => c.aliasName == j.parentAlias) = true := by
  simp [ViewSchema.Shows, Option.any_eq_true]

theorem Sql.check_joinAssertion_of_shows (h : v.Shows j) (rule : String) :
    (joinAssertion rule v j).check =
      .existsIn v.view j.fkColumn (Name.table j.targetLabel) j.keyColumn := by
  simp only [joinAssertion, if_pos (ViewSchema.shows_iff.mp h)]

theorem Sql.check_joinAssertion_of_not_shows (h : ¬ v.Shows j) (rule : String) :
    (joinAssertion rule v j).check =
      .existsIn (Name.table j.parentLabel) j.fkColumn (Name.table j.targetLabel) j.keyColumn := by
  simp only [joinAssertion, if_neg (mt ViewSchema.shows_iff.mpr h)]

end Checks

/-- Every table has a row of ones, but for one table, which is empty. -/
def onesExcept (name : String) : Database ℕ :=
  Function.update (fun _ => [constantRow 1]) name []

namespace Graph

variable {g : Graph} {primitives : Primitives} {terms : List Term} {o : ResolutionOptions}
  {key : Key}

theorem keyed_onesExcept (g : Graph) (o : ResolutionOptions) (name : String) :
    g.Keyed o (onesExcept name) := by
  intro key t c _ _ _
  by_cases hname : t.table = name
  · rw [onesExcept, hname, Function.update_self]
    exact ⟨by simp, by simp⟩
  · rw [onesExcept, Function.update_of_ne hname]
    exact ⟨by simp [constantRow], by simp⟩

/-- Terms with distinct database names have tables of their own. -/
theorem eq_of_table_eq {a b : Key} (hg : build primitives terms = .ok g)
    (hnames : (terms.map fun t => Name.snakeCase t.name).Nodup) (ha : g.declares a = true)
    (hb : g.declares b = true) (h : Name.table (g.label a) = Name.table (g.label b)) : a = b :=
  eq_of_snakeCase_eq hg hnames ha hb ((String.append_right_inj "physical_").mp h)

namespace Assembles

variable {α : Type} {db : Database α} {table : TableSchema} {exposed parents : List Attachment}
  {v : ViewSchema} {j : Join}

theorem update_view_table (h : g.Assembles o key table exposed parents v) (rows : List (Row α))
    (name : String) : Function.update db v.view rows (Name.table name) = db (Name.table name) := by
  rw [h.view_eq, Function.update_of_ne (Name.table_ne_view _ _)]

variable [DecidableEq α]

/-- An inner join drops the rows whose values the table of the joined term does not have. -/
theorem exists_target_row (h : g.Assembles o key table exposed parents v) (hj : j ∈ v.joins)
    (hinner : j.kind = .inner) (hshows : v.Shows j) {r : Row α} (hr : r ∈ v.rows db) :
    ∃ t ∈ db (Name.table (g.label j.target)), t j.keyColumn = r j.fkColumn := by
  obtain ⟨c, hc, halias⟩ := hshows
  rw [ViewSchema.rows_eq_flatMap] at hr
  obtain ⟨row, -, hr⟩ := List.mem_flatMap.mp hr
  rw [ViewSchema.rowsOf_eq] at hr
  obtain ⟨s, hs, rfl⟩ := List.mem_map.mp hr
  have hstep : (JoinClause.ofJoin j, j.rows db (viewRows db v.ancestors)) ∈ v.joinSteps db :=
    List.mem_map_of_mem hj
  obtain ⟨hmem, hholds⟩ := (met_of_mem_joinAll h.inScope hs hstep).resolve_right (by
    show j.kind ≠ .left
    simp [hinner])
  obtain ⟨x, hkey, href⟩ := JoinClause.holds_iff.mp hholds
  have hx : (Select.ofSchema v).project s j.fkColumn = some x := by
    rw [ViewSchema.project_eq hc, halias]
    exact href
  have hmet : s j.aliasName j.keyColumn = some x := hkey
  rw [hx]
  rcases h.rows_cases db hj with ⟨-, hrows⟩ | ⟨s', hs', hterm, -, hrows⟩
  · exact ⟨s j.aliasName, hrows ▸ hmem, hmet⟩
  · -- the joined view repeats the identifiers of the table that it starts from
    obtain ⟨t, _, _, hancestor⟩ := exists_assembles (h.exists_view_of_mem_ancestors hs')
    rw [hrows, ViewSchema.rows_eq_flatMap, hancestor.baseTable_eq,
      (isTable_of_table_eq_ok hancestor.table_eq_ok).table_eq, hterm] at hmem
    obtain ⟨row', hrow', hmem⟩ := List.mem_flatMap.mp hmem
    refine ⟨row', hrow', ?_⟩
    have hsame := hancestor.identifier_of_mem_rowsOf hmem
    rw [hterm, ← (h.columns_eq hj).2] at hsame
    rw [← hsame]
    exact hmet

theorem not_canFail (h : g.Assembles o key table exposed parents v) (hj : j ∈ v.joins)
    (hinner : j.kind = .inner) (hshows : v.Shows j) (rule : String) :
    ¬ v.CanFail g o (joinAssertion rule v j).check := by
  rintro ⟨α, _, db, -, hfails⟩
  rw [check_joinAssertion_of_shows hshows, Check.failures_existsIn_pos_iff] at hfails
  obtain ⟨r, hr, x, hx, hnone⟩ := hfails
  rw [Function.update_self] at hr
  obtain ⟨t, ht, hsame⟩ := h.exists_target_row hj hinner hshows hr
  refine hnone t ?_ (hsame.trans hx)
  rw [(h.labels_eq hj).1, h.update_view_table]
  exact ht

/-- A check that reads the table of the term that refers, as the view shows another column, can
fail: what is joined may be missing altogether. -/
theorem canFail_of_not_shows (h : g.Assembles o key table exposed parents v)
    (hg : build primitives terms = .ok g)
    (hnames : (terms.map fun t => Name.snakeCase t.name).Nodup) (hkey : g.declares key = true)
    (hj : j ∈ v.joins) (hnot : ¬ v.Shows j) (rule : String) :
    v.CanFail g o (joinAssertion rule v j).check := by
  have hne : Name.table (g.label j.parentTerm) ≠ Name.table (g.label j.target) := fun hsame =>
    h.parentTerm_ne_target hj (eq_of_table_eq hg hnames (h.declares_parentTerm hg hkey hj)
      (h.declares_target hg hj) hsame)
  refine ⟨ℕ, inferInstance, onesExcept (Name.table (g.label j.target)),
    keyed_onesExcept g o _, ?_⟩
  rw [check_joinAssertion_of_not_shows hnot, Check.failures_existsIn_pos_iff, (h.labels_eq hj).1,
    (h.labels_eq hj).2, h.update_view_table, h.update_view_table, onesExcept,
    Function.update_of_ne hne, Function.update_self]
  exact ⟨constantRow 1, by simp, 1, rfl, by simp⟩

end Assembles

end Graph

end Glossary
