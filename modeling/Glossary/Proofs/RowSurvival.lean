import Glossary.Proofs.RowPreservation

/-!
Which rows of the base table make it into a view. A row is kept when every inner join on the way
finds a partner for it; a left join never drops a row. So when all tables have a row of ones, every
view has a row for the one of its base table.
-/

namespace Glossary

namespace Sql

variable {α : Type} [DecidableEq α] {s : Scope α} {scope : List String}
  {steps : List (JoinClause × List (Row α))}

/-- Rows that suit the alias which a join refers to have a suitable partner among those joined, or
the join is left and any row suits its alias. -/
def JoinClause.Partners (j : JoinClause) (rows : List (Row α)) (suits : String → Row α → Prop) :
    Prop :=
  ∀ r, suits j.reference.aliasName r →
    (∃ partner ∈ rows, suits j.aliasName partner ∧
      ∃ x, partner j.key.column = some x ∧ r j.reference.column = some x) ∨
    (j.kind = .left ∧ ∀ partner, suits j.aliasName partner)

theorem JoinClause.exists_mem_extend_of_left {j : JoinClause} (hleft : j.kind = .left)
    (rows : List (Row α)) (s : Scope α) : ∃ s', s' ∈ j.extend rows s := by
  rw [extend]
  split
  · exact ⟨_, List.mem_singleton_self _⟩
  · rename_i hmet
    rw [not_and, List.isEmpty_iff] at hmet
    exact List.exists_mem_of_ne_nil _ (hmet hleft)

theorem JoinClause.mem_extend {j : JoinClause} {rows : List (Row α)} {partner : Row α}
    (hkey : j.key.aliasName = j.aliasName) (href : j.reference.aliasName ≠ j.aliasName)
    (hmem : partner ∈ rows) {x : α} (hpartner : partner j.key.column = some x)
    (hx : s j.reference.aliasName j.reference.column = some x) :
    Function.update s j.aliasName partner ∈ j.extend rows s := by
  have hmet : Function.update s j.aliasName partner ∈ j.met rows s := by
    refine List.mem_filter.mpr ⟨List.mem_map_of_mem hmem, JoinClause.holds_iff.mpr ⟨x, ?_, ?_⟩⟩
    · rw [ColumnRef.read, hkey, Function.update_self, hpartner]
    · rw [ColumnRef.read, Function.update_of_ne href, hx]
  have hne : ¬ (j.kind = .left ∧ (j.met rows s).isEmpty = true) := by
    rintro ⟨-, hempty⟩
    rw [List.isEmpty_iff.mp hempty] at hmet
    cases hmet
  rwa [extend, if_neg hne]

/-- A scope with suitable rows survives joins that find partners. -/
theorem exists_mem_joinAll {suits : String → Row α → Prop}
    (h : InScope scope (steps.map Prod.fst)) (hs : ∀ x ∈ scope, suits x (s x))
    (hsteps : ∀ step ∈ steps, step.1.Partners step.2 suits) :
    ∃ s' ∈ joinAll steps [s], (∀ x ∈ scope, s' x = s x) ∧
      ∀ step ∈ steps, suits step.1.aliasName (s' step.1.aliasName) := by
  induction steps generalizing s scope with
  | nil => exact ⟨s, List.mem_singleton_self s, fun x _ => rfl, by simp⟩
  | cons step steps ih =>
      obtain ⟨hkey, href, hfresh, hrest⟩ := h
      rw [List.forall_mem_cons] at hsteps
      have hne : ∀ x ∈ scope, x ≠ step.1.aliasName := by
        rintro x hx rfl
        exact hfresh hx
      have hnext : ∃ partner, suits step.1.aliasName partner ∧
          Function.update s step.1.aliasName partner ∈ step.1.extend step.2 s := by
        rcases hsteps.1 _ (hs _ href) with ⟨partner, hmem, hsuits, x, hpartner, hx⟩ | ⟨hleft, hall⟩
        · exact ⟨partner, hsuits, JoinClause.mem_extend hkey (hne _ href) hmem hpartner hx⟩
        · obtain ⟨t, ht⟩ := JoinClause.exists_mem_extend_of_left hleft step.2 s
          obtain ⟨r, rfl, -⟩ := JoinClause.exists_of_mem_extend ht
          exact ⟨r, hall r, ht⟩
      obtain ⟨partner, hsuits, hmem⟩ := hnext
      have hscope : ∀ x ∈ step.1.aliasName :: scope,
          suits x (Function.update s step.1.aliasName partner x) := by
        rw [List.forall_mem_cons, Function.update_self]
        refine ⟨hsuits, fun x hx => ?_⟩
        rw [Function.update_of_ne (hne x hx)]
        exact hs x hx
      obtain ⟨s', hs', hsame, hall⟩ := ih hrest hscope hsteps.2
      rw [List.forall_mem_cons, Function.update_self] at hsame
      refine ⟨s', mem_joinAll_cons_iff.mpr ⟨_, hmem, hs'⟩, fun x hx => ?_, ?_⟩
      · rw [hsame.2 x hx, Function.update_of_ne (hne x hx)]
      · rw [List.forall_mem_cons, hsame.1]
        exact ⟨hsuits, hall⟩

end Sql

/-- The row with the same value in all columns. -/
def constantRow (n : ℕ) : Row ℕ := fun _ => some n

namespace Graph

variable {g : Graph} {o : ResolutionOptions} {key : Key} {db : Database ℕ}

namespace Assembles

open Sql

variable {table : TableSchema} {exposed parents : List Attachment} {v : ViewSchema} {i j : Join}
  {base : Row ℕ} {twos : List Join}

theorem source_eq_table_of_left (h : g.Assembles o key table exposed parents v)
    (hj : j ∈ v.joins) (hleft : j.kind = .left) : j.source = .table := by
  obtain ⟨a, ha, rfl⟩ := h.exists_attachment hj
  rcases List.mem_append.mp ha with ha | ha
  · obtain ⟨m, hop, t, -, rfl⟩ := h.exposed_of.exists_table ha
    rfl
  · obtain ⟨m, parent, -, ancestor, -, rfl⟩ := h.parents_of.exists_parent ha
    cases hleft

/-- A join hangs from the base table, or from the table of an earlier join that is left when it is
left itself. -/
theorem base_or_hangs (h : g.Assembles o key table exposed parents v) {n : ℕ}
    (hj : v.joins[n]? = some j) : (j.parentAlias = baseAlias ∧ j.parentTerm = key) ∨
      ∃ m < n, ∃ i, v.joins[m]? = some i ∧ i.aliasName = j.parentAlias ∧
        i.target = j.parentTerm ∧ i.source = .table ∧ (j.kind = .left ↔ i.kind = .left) := by
  obtain ⟨t, -, hstands⟩ := h.exists_table_stands hj
  rcases hstands with ⟨hbase, hterm, -⟩ | ⟨m, hlt, i, hi, halias, hsource, htarget, -⟩
  · exact Or.inl ⟨hbase, hterm.trans h.term_eq⟩
  · have hmem := List.mem_of_getElem? hi
    rcases h.passesOn (List.mem_of_getElem? hj) with ⟨hbase, -⟩ | ⟨i', hi', halias', hkind, -⟩
    · exact absurd (halias.trans hbase) (h.alias_ne_base hmem)
    · obtain rfl := h.eq_of_alias_eq hmem hi' (halias'.trans halias.symm)
      exact Or.inr ⟨m, hlt, i', hi, halias, htarget, hsource, hkind⟩

/-- A join in `twos` meets the row of twos of a table. It hangs from the base row or from another
one of these joins. -/
structure MeetsTwos (g : Graph) (db : Database ℕ) (v : ViewSchema) (base : Row ℕ)
    (twos : List Join) (j : Join) : Prop where
  mem : j ∈ v.joins
  left : j.kind = .left
  row_mem : constantRow 2 ∈ db (Name.table (g.label j.target))
  hangs : (j.parentAlias = baseAlias ∧ base j.fkColumn = some 2) ∨
    ∃ i ∈ twos, i.aliasName = j.parentAlias

/-- The row suits an alias of the view: the base row its own alias, a row of twos each of the joins
in `twos`, and a row of ones the inner joins of tables. -/
structure Suits (v : ViewSchema) (base : Row ℕ) (twos : List Join) (x : String) (r : Row ℕ) :
    Prop where
  of_base : x = baseAlias → r = base
  of_twos : ∀ j ∈ v.joins, j.aliasName = x → j ∈ twos → r = constantRow 2
  of_inner : ∀ j ∈ v.joins, j.aliasName = x → j.kind = .inner → j.source = .table →
    r = constantRow 1

theorem suits_base (h : g.Assembles o key table exposed parents v) :
    Suits v base twos baseAlias base where
  of_base := fun _ => rfl
  of_twos := fun _ hj halias => absurd halias (h.alias_ne_base hj)
  of_inner := fun _ hj halias => absurd halias (h.alias_ne_base hj)

theorem suits_alias (h : g.Assembles o key table exposed parents v) (hj : j ∈ v.joins)
    {r : Row ℕ} (htwos : j ∈ twos → r = constantRow 2)
    (hinner : j.kind = .inner → j.source = .table → r = constantRow 1) :
    Suits v base twos j.aliasName r where
  of_base := fun halias => absurd halias (h.alias_ne_base hj)
  of_twos := by
    intro i hi halias hmem
    obtain rfl := h.eq_of_alias_eq hj hi halias
    exact htwos hmem
  of_inner := by
    intro i hi halias
    obtain rfl := h.eq_of_alias_eq hj hi halias
    exact hinner

theorem MeetsTwos.partners (hj : MeetsTwos g db v base twos j)
    (h : g.Assembles o key table exposed parents v) (htwos : ∀ i ∈ twos, i ∈ v.joins) :
    (JoinClause.ofJoin j).Partners (j.rows db (viewRows db v.ancestors)) (Suits v base twos) := by
  intro r hr
  have hrows : j.rows db (viewRows db v.ancestors) = db (Name.table (g.label j.target)) := by
    rcases h.reads hj.mem with ⟨hsource, hname⟩ | ⟨hsource, -⟩
    · rw [Join.rows, hsource, hname]
    · cases hsource.symm.trans (h.source_eq_table_of_left hj.mem hj.left)
  have hvalue : r j.fkColumn = some 2 := by
    rcases hj.hangs with ⟨hbase, hfk⟩ | ⟨i, hi, halias⟩
    · rw [hr.of_base hbase, hfk]
    · rw [hr.of_twos i (htwos i hi) halias hi]
      rfl
  refine Or.inl ⟨constantRow 2, hrows ▸ hj.row_mem, ?_, 2, rfl, hvalue⟩
  refine h.suits_alias hj.mem (fun _ => rfl) fun hinner => ?_
  cases hinner.symm.trans hj.left

theorem partners_of_inner (h : g.Assembles o key table exposed parents v)
    (hones : ∀ name, constantRow 1 ∈ db (Name.table name))
    (hviews : ∀ s ∈ v.ancestors, ∃ x ∈ s.rows db, x (g.identifierColumn o s.term).name = some 1)
    (hj : j ∈ v.joins) (hinner : j.kind = .inner) (hnot : j ∉ twos)
    (hbase : j.parentAlias = baseAlias → base j.fkColumn = some 1) :
    (JoinClause.ofJoin j).Partners (j.rows db (viewRows db v.ancestors)) (Suits v base twos) := by
  intro r hr
  have hvalue : r j.fkColumn = some 1 := by
    obtain ⟨n, hn⟩ := List.mem_iff_getElem?.mp hj
    rcases h.base_or_hangs hn with ⟨hparent, -⟩ | ⟨m, -, i, hi, halias, -, hsource, hkind⟩
    · rw [hr.of_base hparent, hbase hparent]
    · have hi_inner : i.kind = .inner := by
        cases hi : i.kind with
        | inner => rfl
        | left => cases hinner.symm.trans (hkind.mpr hi)
      rw [hr.of_inner i (List.mem_of_getElem? hi) halias hi_inner hsource]
      rfl
  rcases h.reads hj with ⟨hsource, hname⟩ | ⟨hsource, s, hs, hterm, -⟩
  · refine Or.inl ⟨constantRow 1, ?_, ?_, 1, rfl, hvalue⟩
    · rw [Join.rows, hsource, hname]
      exact hones _
    · exact h.suits_alias hj (fun hmem => absurd hmem hnot) fun _ _ => rfl
  · obtain ⟨x, hx, hone⟩ := hviews s hs
    refine Or.inl ⟨x, ?_, ?_, 1, ?_, hvalue⟩
    · rw [Join.rows, hsource, ← hterm, h.lookup_viewRows hs]
      exact hx
    · refine h.suits_alias hj (fun hmem => absurd hmem hnot) fun _ htable => ?_
      cases hsource.symm.trans htable
    · rw [hterm] at hone
      show x j.keyColumn = some 1
      rw [(h.columns_eq hj).2, hone]

theorem partners_of_left (h : g.Assembles o key table exposed parents v) (hj : j ∈ v.joins)
    (hleft : j.kind = .left) (hnot : j ∉ twos) :
    (JoinClause.ofJoin j).Partners (j.rows db (viewRows db v.ancestors)) (Suits v base twos) := by
  intro r hr
  refine Or.inr ⟨hleft, fun partner => ?_⟩
  refine h.suits_alias hj (fun hmem => absurd hmem hnot) fun hinner => ?_
  cases hinner.symm.trans hleft

/-- A row of the base table survives when every table has a row of ones, every view that is joined
has a row identified by one, and the base row refers to these by ones. Left joins may meet rows of
twos instead. -/
theorem exists_scope (h : g.Assembles o key table exposed parents v) (base : Row ℕ)
    (twos : List Join) (hones : ∀ name, constantRow 1 ∈ db (Name.table name))
    (hviews : ∀ s ∈ v.ancestors, ∃ x ∈ s.rows db, x (g.identifierColumn o s.term).name = some 1)
    (hbase : ∀ j ∈ v.joins, j.parentAlias = baseAlias → j.kind = .inner →
      base j.fkColumn = some 1)
    (htwos : ∀ j ∈ twos, MeetsTwos g db v base twos j) :
    ∃ s ∈ joinAll (v.joinSteps db) [Function.update (fun _ => nullRow) v.baseAlias base],
      s baseAlias = base ∧ ∀ j ∈ twos, s j.aliasName = constantRow 2 := by
  have hsteps : ∀ step ∈ v.joinSteps db, step.1.Partners step.2 (Suits v base twos) := by
    intro step hstep
    obtain ⟨j, hj, rfl⟩ := List.mem_map.mp hstep
    by_cases hmem : j ∈ twos
    · exact (htwos j hmem).partners h fun i hi => (htwos i hi).mem
    · cases hkind : j.kind with
      | inner => exact h.partners_of_inner hones hviews hj hkind hmem (hbase j hj · hkind)
      | left => exact h.partners_of_left hj hkind hmem
  have hstart : ∀ x ∈ [baseAlias], Suits v base twos x
      (Function.update (fun _ => nullRow) v.baseAlias base x) := by
    intro x hx
    rw [List.mem_singleton.mp hx, h.baseAlias_eq, Function.update_self]
    exact h.suits_base
  obtain ⟨s, hs, hsame, hall⟩ := exists_mem_joinAll h.inScope hstart hsteps
  refine ⟨s, hs, ?_, fun j hj => ?_⟩
  · rw [hsame baseAlias (List.mem_singleton_self _), h.baseAlias_eq, Function.update_self]
  · have hmem := (htwos j hj).mem
    exact (hall _ (List.mem_map_of_mem hmem)).of_twos j hmem rfl hj

end Assembles

/-- Where every table has a row of ones, every view has a row that comes from the one of its base
table. -/
theorem exists_row_of_ones {v : ViewSchema} (hv : g.view o key = .ok v)
    (hones : ∀ name, constantRow 1 ∈ db (Name.table name)) :
    ∃ x ∈ v.rows db, x (g.identifierColumn o key).name = some 1 := by
  refine view_induction (motive := fun key v =>
    ∃ x ∈ v.rows db, x (g.identifierColumn o key).name = some 1) ?_ hv
  intro key table exposed parents v h hviews
  obtain ⟨s, hs, -⟩ := h.exists_scope (constantRow 1) [] hones hviews (fun _ _ _ _ => rfl)
    (by simp)
  have hmem : (Sql.Select.ofSchema v).project s ∈ v.rowsOf db (constantRow 1) := by
    rw [ViewSchema.rowsOf_eq]
    exact List.mem_map_of_mem hs
  refine ⟨_, ?_, (h.identifier_of_mem_rowsOf hmem).trans rfl⟩
  rw [ViewSchema.rows_eq_flatMap, h.baseTable_eq, (isTable_of_table_eq_ok h.table_eq_ok).table_eq]
  exact List.mem_flatMap.mpr ⟨_, hones _, hmem⟩

end Graph

end Glossary
