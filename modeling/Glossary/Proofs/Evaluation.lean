import Mathlib.Data.List.Dedup
import Mathlib.Data.List.Nodup
import Mathlib.Logic.Function.Basic
import Glossary.Sql.Query
import Glossary.Sql.Script

/-!
The relational meaning of queries. A query starts from the rows of one table. Each join puts beside
them the rows that meet its condition, and a left join puts a row of nulls where there are none. A
view that is joined is evaluated first.
-/

namespace Glossary

/-- The values of a row by column; `none` is null. -/
abbrev Row (α : Type) := String → Option α

def nullRow {α : Type} : Row α := fun _ => none

/-- The rows of every table, by the name of the table. -/
abbrev Database (α : Type) := String → List (Row α)

/-- The rows that stand at the aliases of a query. -/
abbrev Scope (α : Type) := String → Row α

/-- The column is never null in the rows and has no value twice. -/
structure Identifies {α : Type} (column : String) (rows : List (Row α)) : Prop where
  not_null : ∀ r ∈ rows, r column ≠ none
  nodup : (rows.map fun r => r column).Nodup

namespace Sql

variable {α : Type} [DecidableEq α]

def ColumnRef.read (r : ColumnRef) (s : Scope α) : Option α :=
  s r.aliasName r.column

/-- The condition of a join. Null equals nothing. -/
def JoinClause.holds (j : JoinClause) (s : Scope α) : Bool :=
  (j.key.read s).isSome && j.key.read s == j.reference.read s

def JoinClause.met (j : JoinClause) (rows : List (Row α)) (s : Scope α) : List (Scope α) :=
  (rows.map (Function.update s j.aliasName)).filter j.holds

/-- The scopes that a join of the given rows makes from one. -/
def JoinClause.extend (j : JoinClause) (rows : List (Row α)) (s : Scope α) : List (Scope α) :=
  if j.kind = .left ∧ (j.met rows s).isEmpty then [Function.update s j.aliasName nullRow]
  else j.met rows s

/-- Makes joins one after the other. -/
def joinAll : List (JoinClause × List (Row α)) → List (Scope α) → List (Scope α)
  | [], scopes => scopes
  | (j, rows) :: rest, scopes => joinAll rest (scopes.flatMap (j.extend rows))

namespace Select

def scopes (q : Select) (base : List (Row α)) (joined : List (List (Row α))) : List (Scope α) :=
  joinAll (q.joins.zip joined)
    (base.map (Function.update (fun _ => nullRow) q.aliasName))

/-- What a query gives out of a scope. -/
def project (q : Select) (s : Scope α) : Row α := fun name =>
  (q.output.find? fun r => r.column == name).bind fun r => r.read s

/-- The rows of a query that starts from the rows `base` and joins the others in order. -/
def evaluate (q : Select) (base : List (Row α)) (joined : List (List (Row α))) : List (Row α) :=
  (q.scopes base joined).map q.project

/-- The rows of a query over named tables and views. -/
def rows (relation : Database α) (q : Select) : List (Row α) :=
  q.evaluate (relation q.table) (q.joins.map fun j => relation j.table)

end Select

/-- The failures that a check counts. What a range rule forbids is SQL text of its own. -/
def Check.failures (relation : Database α) : Check → Option Nat
  | hasRows object => some (if (relation object).isEmpty then 1 else 0)
  | notNull object column => some ((relation object).countP fun r => (r column).isNone)
  | unique object column =>
      let values := (relation object).map fun r => r column
      some (values.dedup.countP fun x => 1 < values.count x)
  | existsIn object column table key =>
      some ((relation object).countP fun r =>
        (r column).isSome && !(relation table).any fun t => t key == r column)
  | noneSatisfies _ _ _ => none

end Sql

section Views

open Sql

variable {α : Type} [DecidableEq α]

/-- The rows that a join reads, where the views of ancestors have the given rows. -/
def Join.rows (db : Database α) (views : List (Key × List (Row α))) (j : Join) : List (Row α) :=
  match j.source with
  | .table => db j.table
  | .view => (views.lookup j.target).getD []

mutual

/-- The rows of a view: its query over the tables, and over the views of ancestors that it joins. -/
def ViewSchema.rows (db : Database α) : ViewSchema → List (Row α)
  | ⟨term, label, view, baseTable, baseAlias, columns, joins, ancestors, issues⟩ =>
      (Select.ofSchema
        ⟨term, label, view, baseTable, baseAlias, columns, joins, ancestors, issues⟩).evaluate
        (db baseTable) (joins.map (Join.rows db (viewRows db ancestors)))

def viewRows (db : Database α) : List ViewSchema → List (Key × List (Row α))
  | [] => []
  | s :: rest => (s.term, s.rows db) :: viewRows db rest

end

/-- What the joins of a view read. -/
def ViewSchema.joined (db : Database α) (v : ViewSchema) : List (List (Row α)) :=
  v.joins.map (Join.rows db (viewRows db v.ancestors))

/-- The rows of a view that come from one row of its base table. -/
def ViewSchema.rowsOf (db : Database α) (v : ViewSchema) (r : Row α) : List (Row α) :=
  (Select.ofSchema v).evaluate [r] (v.joined db)

theorem ViewSchema.rows_eq (db : Database α) (v : ViewSchema) :
    v.rows db = (Select.ofSchema v).evaluate (db v.baseTable) (v.joined db) := by
  cases v
  rw [ViewSchema.rows, ViewSchema.joined]

theorem viewRows_eq_map (db : Database α) (ss : List ViewSchema) :
    viewRows db ss = ss.map fun s => (s.term, s.rows db) := by
  induction ss with
  | nil => rw [viewRows, List.map_nil]
  | cons s ss ih => rw [viewRows, ih, List.map_cons]

end Views

namespace Sql

variable {α : Type} [DecidableEq α] {j : JoinClause} {s s' : Scope α} {scope : List String}
  {steps : List (JoinClause × List (Row α))} {rows : List (Row α)}

theorem JoinClause.holds_iff :
    j.holds s = true ↔ ∃ x, j.key.read s = some x ∧ j.reference.read s = some x := by
  rw [JoinClause.holds, Bool.and_eq_true, beq_iff_eq, Option.isSome_iff_exists]
  constructor
  · rintro ⟨⟨x, hx⟩, heq⟩
    exact ⟨x, hx, heq ▸ hx⟩
  · rintro ⟨x, hkey, href⟩
    exact ⟨⟨x, hkey⟩, hkey.trans href.symm⟩

theorem JoinClause.exists_of_mem_extend (h : s' ∈ j.extend rows s) :
    ∃ r, s' = Function.update s j.aliasName r ∧
      ((r ∈ rows ∧ j.holds s' = true) ∨ j.kind = .left) := by
  unfold extend at h
  split at h
  · rename_i hleft
    exact ⟨nullRow, by simpa using h, Or.inr hleft.1⟩
  · obtain ⟨hmem, hholds⟩ := List.mem_filter.mp h
    obtain ⟨r, hr, rfl⟩ := List.mem_map.mp hmem
    exact ⟨r, rfl, Or.inl ⟨hr, hholds⟩⟩

theorem joinAll_eq_flatMap (scopes : List (Scope α)) :
    joinAll steps scopes = scopes.flatMap fun s => joinAll steps [s] := by
  induction steps generalizing scopes with
  | nil => simp [joinAll]
  | cons step steps ih =>
      simp only [joinAll, List.flatMap_singleton]
      rw [ih, List.flatMap_assoc]
      congr 1
      funext s
      exact (ih _).symm

theorem mem_joinAll_cons_iff : s' ∈ joinAll ((j, rows) :: steps) [s] ↔
    ∃ t ∈ j.extend rows s, s' ∈ joinAll steps [t] := by
  rw [joinAll, joinAll_eq_flatMap]
  simp

/-- Every join refers to an alias in scope and brings a new one. -/
def InScope : List String → List JoinClause → Prop
  | _, [] => True
  | scope, j :: rest => j.key.aliasName = j.aliasName ∧ j.reference.aliasName ∈ scope ∧
      j.aliasName ∉ scope ∧ InScope (j.aliasName :: scope) rest

/-- Joins leave what is in scope as it is. -/
theorem eq_of_mem_joinAll (h : InScope scope (steps.map Prod.fst))
    (hs : s' ∈ joinAll steps [s]) {x : String} (hx : x ∈ scope) : s' x = s x := by
  induction steps generalizing s scope with
  | nil => simpa [joinAll] using congrFun (List.mem_singleton.mp hs) x
  | cons step steps ih =>
      obtain ⟨-, -, hfresh, hrest⟩ := h
      obtain ⟨t, ht, hs⟩ := mem_joinAll_cons_iff.mp hs
      obtain ⟨r, rfl, -⟩ := JoinClause.exists_of_mem_extend ht
      rw [ih hrest hs (List.mem_cons_of_mem _ hx), Function.update_of_ne]
      rintro rfl
      exact hfresh hx

/-- At the alias of a join stands a row that meets the condition, unless the join is left. -/
theorem met_of_mem_joinAll (h : InScope scope (steps.map Prod.fst))
    (hs : s' ∈ joinAll steps [s]) {step : JoinClause × List (Row α)} (hstep : step ∈ steps) :
    (s' step.1.aliasName ∈ step.2 ∧ step.1.holds s' = true) ∨ step.1.kind = .left := by
  induction steps generalizing s scope with
  | nil => cases hstep
  | cons first steps ih =>
      obtain ⟨hkey, href, -, hrest⟩ := h
      obtain ⟨t, ht, hs⟩ := mem_joinAll_cons_iff.mp hs
      rcases List.mem_cons.mp hstep with rfl | hstep
      · obtain ⟨r, rfl, hmet⟩ := JoinClause.exists_of_mem_extend ht
        refine hmet.imp_left ?_
        rintro ⟨hr, hholds⟩
        have hsame := @eq_of_mem_joinAll _ _ _ _ _ _ hrest hs
        have halias := hsame List.mem_cons_self
        refine ⟨by simpa [halias] using hr, ?_⟩
        rw [JoinClause.holds_iff] at hholds ⊢
        simpa only [ColumnRef.read, hkey, halias, hsame (List.mem_cons_of_mem _ href)] using hholds
      · exact ih hrest hs hstep

/-- A join finds at most one row when it compares with an identifier. -/
theorem JoinClause.length_extend_le_one (hkey : j.key.aliasName = j.aliasName)
    (href : j.reference.aliasName ≠ j.aliasName) (hrows : Identifies j.key.column rows) :
    (j.extend rows s).length ≤ 1 ∧ (j.kind = .left → (j.extend rows s).length = 1) := by
  have hmet : (j.met rows s).length ≤ 1 := by
    rw [met, List.filter_map, List.length_map, ← List.countP_eq_length_filter]
    calc
      _ ≤ rows.countP fun r => r j.key.column == j.reference.read s := by
        refine List.countP_mono_left fun r _ hholds => ?_
        obtain ⟨x, hx, hx'⟩ := JoinClause.holds_iff.mp hholds
        simp only [ColumnRef.read, hkey, Function.update_self] at hx
        simp only [ColumnRef.read, Function.update_of_ne href] at hx' ⊢
        simp [hx, hx']
      _ = (rows.map fun r => r j.key.column).count (j.reference.read s) := by
        rw [List.count, List.countP_map]
        rfl
      _ ≤ 1 := List.nodup_iff_count_le_one.mp hrows.nodup _
  unfold extend
  split
  · simp
  · rename_i hsome
    refine ⟨hmet, fun hleft => ?_⟩
    rw [not_and, List.isEmpty_iff, ← List.length_eq_zero_iff] at hsome
    have hne := hsome hleft
    omega

theorem length_joinAll_le_one (h : InScope scope (steps.map Prod.fst))
    (hrows : ∀ step ∈ steps, Identifies step.1.key.column step.2) :
    (joinAll steps [s]).length ≤ 1 ∧
      ((∀ step ∈ steps, step.1.kind = .left) → (joinAll steps [s]).length = 1) := by
  induction steps generalizing s scope with
  | nil => simp [joinAll]
  | cons step steps ih =>
      obtain ⟨hkey, href, hfresh, hrest⟩ := h
      rw [List.forall_mem_cons] at hrows
      have hne : step.1.reference.aliasName ≠ step.1.aliasName := by
        intro heq
        exact hfresh (heq ▸ href)
      obtain ⟨hle, hone⟩ := JoinClause.length_extend_le_one (s := s) hkey hne hrows.1
      rw [joinAll, List.flatMap_singleton, List.forall_mem_cons]
      rcases Nat.le_one_iff_eq_zero_or_eq_one.mp hle with hzero | hsingle
      · rw [List.length_eq_zero_iff.mp hzero, joinAll_eq_flatMap]
        simp only [List.flatMap_nil, List.length_nil, Nat.zero_le, true_and]
        rintro ⟨hleft, -⟩
        have heq := hone hleft
        omega
      · obtain ⟨t, ht⟩ := List.length_eq_one_iff.mp hsingle
        rw [ht]
        exact (ih hrest hrows.2).imp_right fun hall hleft => hall hleft.2

end Sql

end Glossary
