import Mathlib.Data.List.Basic
import Glossary.Schema.Validation

/-!
Which schemas have no structural fault. A table must have a name, a first column that is a key, and
columns with names that differ; a view must start with the identifier of its base table, join only
what hangs from something joined before, and show columns of what it joins under names that differ.
-/

namespace Glossary

/-- The table has a name, and columns with names of their own, the first of which is a key. -/
structure TableSchema.IsWellFormed (s : TableSchema) : Prop where
  table_ne : s.table ≠ ""
  keyed : ∃ first rest, s.columns = first :: rest ∧ first.role = .identifier ∧
    first.required = true
  names_ne : ∀ c ∈ s.columns, c.name ≠ ""
  names_nodup : s.columnNames.Nodup

/-- The view starts from the identifier of its base table. Every join has an alias of its own and
hangs from the base table or from a join before it, and every column is read from one of these. -/
structure ViewSchema.IsWellFormed (s : ViewSchema) : Prop where
  keyed : ∃ first rest, s.columns = first :: rest ∧ first.role = .identifier ∧
    first.aliasName = s.baseAlias
  joins_hang : ∀ before j after, s.joins = before ++ j :: after →
    j.parentAlias = s.baseAlias ∨ ∃ k ∈ before, k.aliasName = j.parentAlias
  aliases_nodup : (s.joins.map Join.aliasName).Nodup
  aliases_ne : ∀ j ∈ s.joins, j.aliasName ≠ s.baseAlias
  columns_scoped : ∀ c ∈ s.columns, c.aliasName = s.baseAlias ∨
    ∃ j ∈ s.joins, j.aliasName = c.aliasName
  names_nodup : s.columnNames.Nodup

def Schema.IsWellFormed : Schema → Prop
  | .table s => s.IsWellFormed
  | .view s => s.IsWellFormed

/-- What is said of every split of a list is said of its first member and of the splits behind. -/
theorem forall_split_cons_iff {α : Type} {a : α} {as : List α} {p : List α → α → Prop} :
    (∀ before b after, a :: as = before ++ b :: after → p before b) ↔
      p [] a ∧ ∀ before b after, as = before ++ b :: after → p (a :: before) b := by
  constructor
  · intro h
    refine ⟨h [] a as rfl, fun before b after hsplit => h (a :: before) b after ?_⟩
    rw [hsplit, List.cons_append]
  · rintro ⟨hfirst, hrest⟩ before b after hsplit
    cases before with
    | nil =>
        obtain ⟨rfl, -⟩ := List.cons.inj hsplit
        exact hfirst
    | cons c before =>
        obtain ⟨rfl, htail⟩ := List.cons.inj hsplit
        exact hrest before b after htail

namespace TableSchema

variable {table : String} {seen : List String} {cs : List Column} {s : TableSchema}

theorem columnFaults_eq_nil_iff : columnFaults table seen cs = [] ↔
    (∀ c ∈ cs, c.name ≠ "") ∧ (cs.map Column.name).Nodup ∧
      (cs.map Column.name).Disjoint seen := by
  induction cs generalizing seen with
  | nil => simp [columnFaults]
  | cons c cs ih =>
      rw [columnFaults, List.append_eq_nil_iff, ih, List.forall_mem_cons, List.map_cons,
        List.nodup_cons, List.disjoint_cons_left, List.disjoint_cons_right]
      by_cases hname : c.name = ""
      · simp [hname]
      · by_cases hseen : c.name ∈ seen
        · simp [hname, hseen]
        · simp only [hname, hseen, if_false, not_false_eq_true, ne_eq, true_and]
          tauto

theorem keyFaults_eq_nil_iff {c : Column} :
    keyFaults table c = [] ↔ c.role = .identifier ∧ c.required = true := by
  unfold keyFaults
  split
  · simp_all
  · split <;> simp_all

theorem IsWellFormed.columns_ne_nil (h : s.IsWellFormed) : s.columns ≠ [] := by
  obtain ⟨first, rest, hcolumns, -⟩ := h.keyed
  rw [hcolumns]
  exact List.cons_ne_nil first rest

theorem faults_eq_nil_iff : s.faults = [] ↔ s.IsWellFormed := by
  rw [faults]
  split
  · rename_i hnil
    exact ⟨fun h => by simp at h, fun h => absurd hnil h.columns_ne_nil⟩
  · rename_i first rest hcolumns
    rw [List.append_eq_nil_iff, List.append_eq_nil_iff, keyFaults_eq_nil_iff,
      columnFaults_eq_nil_iff]
    constructor
    · rintro ⟨⟨htable, hrole, hrequired⟩, hnames, hnodup, -⟩
      exact ⟨by simpa using htable, ⟨first, rest, hcolumns, hrole, hrequired⟩, hnames, hnodup⟩
    · rintro ⟨htable, ⟨first', rest', hcolumns', hrole, hrequired⟩, hnames, hnodup⟩
      obtain ⟨rfl, -⟩ := List.cons.inj (hcolumns.symm.trans hcolumns')
      exact ⟨⟨if_neg htable, hrole, hrequired⟩, hnames, hnodup, List.disjoint_nil_right _⟩

end TableSchema

namespace ViewSchema

variable {view : String} {scope seen : List String} {cs : List ViewColumn} {js : List Join}
  {s : ViewSchema}

theorem columnFaults_eq_nil_iff : columnFaults view scope seen cs = [] ↔
    (∀ c ∈ cs, c.aliasName ∈ scope) ∧ (cs.map fun c => c.name).Nodup ∧
      (cs.map fun c => c.name).Disjoint seen := by
  induction cs generalizing seen with
  | nil => simp [columnFaults]
  | cons c cs ih =>
      rw [columnFaults, List.append_eq_nil_iff, List.append_eq_nil_iff, ih, List.forall_mem_cons,
        List.map_cons, List.nodup_cons, List.disjoint_cons_left, List.disjoint_cons_right]
      by_cases hscope : c.aliasName ∈ scope
      · by_cases hseen : c.name ∈ seen
        · simp [hseen]
        · simp only [hscope, hseen, if_true, if_false, not_false_eq_true, true_and]
          tauto
      · simp [hscope]

/-- The scope of a join is made of the aliases before it. -/
theorem joinFaults_eq_nil_iff : joinFaults view scope js = [] ↔
    (∀ before j after, js = before ++ j :: after →
      j.parentAlias ∈ scope ∨ ∃ k ∈ before, k.aliasName = j.parentAlias) ∧
    (js.map Join.aliasName).Nodup ∧ (js.map Join.aliasName).Disjoint scope := by
  induction js generalizing scope with
  | nil => simp [joinFaults]
  | cons j js ih =>
      rw [joinFaults, List.append_eq_nil_iff, List.append_eq_nil_iff, ih, forall_split_cons_iff,
        List.map_cons, List.nodup_cons, List.disjoint_cons_left, List.disjoint_cons_right]
      by_cases hparent : j.parentAlias ∈ scope
      · by_cases halias : j.aliasName ∈ scope
        · simp [halias]
        · have hscope : ∀ (before : List Join) (k : Join),
              (k.parentAlias ∈ j.aliasName :: scope ∨
                ∃ i ∈ before, i.aliasName = k.parentAlias) ↔
              (k.parentAlias ∈ scope ∨ ∃ i ∈ j :: before, i.aliasName = k.parentAlias) := by
            intro before k
            rw [List.mem_cons, List.exists_mem_cons_iff, eq_comm, or_assoc, or_left_comm]
          simp only [hparent, halias, hscope, if_true, if_false, not_false_eq_true, true_or,
            true_and]
          tauto
      · simp [hparent]

theorem keyFaults_eq_nil_iff {c : ViewColumn} :
    s.keyFaults c = [] ↔ c.role = .identifier ∧ c.aliasName = s.baseAlias := by
  unfold keyFaults
  split
  · simp_all [imp_iff_not_or]
  · simp_all

theorem mem_scope_iff {a : String} :
    a ∈ s.scope ↔ a = s.baseAlias ∨ ∃ j ∈ s.joins, j.aliasName = a := by
  rw [scope, List.mem_cons, List.mem_map]

theorem IsWellFormed.columns_ne_nil (h : s.IsWellFormed) : s.columns ≠ [] := by
  obtain ⟨first, rest, hcolumns, -⟩ := h.keyed
  rw [hcolumns]
  exact List.cons_ne_nil first rest

theorem faults_eq_nil_iff : s.faults = [] ↔ s.IsWellFormed := by
  rw [faults]
  split
  · rename_i hnil
    exact ⟨fun h => by simp at h, fun h => absurd hnil h.columns_ne_nil⟩
  · rename_i first rest hcolumns
    rw [List.append_eq_nil_iff, List.append_eq_nil_iff, keyFaults_eq_nil_iff,
      joinFaults_eq_nil_iff, columnFaults_eq_nil_iff, List.disjoint_singleton]
    simp only [List.mem_singleton, mem_scope_iff]
    constructor
    · rintro ⟨⟨⟨hrole, hbase⟩, hhang, haliases, hbases⟩, hscoped, hnames, -⟩
      exact {
        keyed := ⟨first, rest, hcolumns, hrole, hbase⟩
        joins_hang := hhang
        aliases_nodup := haliases
        aliases_ne := fun j hj heq => hbases (heq ▸ List.mem_map_of_mem hj)
        columns_scoped := hscoped
        names_nodup := hnames }
    · intro h
      obtain ⟨first', rest', hcolumns', hrole, hbase⟩ := h.keyed
      obtain ⟨rfl, -⟩ := List.cons.inj (hcolumns.symm.trans hcolumns')
      refine ⟨⟨⟨hrole, hbase⟩, h.joins_hang, h.aliases_nodup, fun hmem => ?_⟩, h.columns_scoped,
        h.names_nodup, List.disjoint_nil_right _⟩
      obtain ⟨j, hj, heq⟩ := List.mem_map.mp hmem
      exact h.aliases_ne j hj heq

end ViewSchema

end Glossary
