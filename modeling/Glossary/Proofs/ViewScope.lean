import Glossary.Proofs.ViewAttachments
import Glossary.Proofs.WellFormedSchemas

/-!
A view is well scoped: its joins are numbered, hang from tables that stand before them and meet an
identifier, and its columns have distinct names and are supplied by what they read from.
-/

namespace Glossary

/-- What a join reads from, with its columns. A view that is read is among the embedded ones. -/
inductive Join.Reads (g : Graph) (o : ResolutionOptions) (v : ViewSchema) (j : Join) :
    List Column → Prop
  | table {t : TableSchema} : j.source = .table → g.table o j.target = .ok t →
      j.table = t.table → Reads g o v j t.columns
  | view {s : ViewSchema} : j.source = .view → g.view o j.target = .ok s → s ∈ v.ancestors →
      j.table = s.view → Reads g o v j (s.columns.map ViewColumn.toColumn)

/-- What stands at an alias of a view, with its columns. -/
inductive ViewSchema.Supplies (g : Graph) (o : ResolutionOptions) (v : ViewSchema) :
    String → List Column → Prop
  | base {t : TableSchema} : g.table o v.term = .ok t → v.baseTable = t.table →
      Supplies g o v Glossary.baseAlias t.columns
  | join {j : Join} {columns : List Column} : j ∈ v.joins → j.Reads g o v columns →
      Supplies g o v j.aliasName columns

/-- The table of `term` stands at an alias before the join of index `n`. -/
def ViewSchema.TableStands (v : ViewSchema) (n : Nat) (aliasName : String) (term : Key)
    (t : TableSchema) : Prop :=
  (aliasName = Glossary.baseAlias ∧ term = v.term ∧ v.baseTable = t.table) ∨
    ∃ m < n, ∃ j, v.joins[m]? = some j ∧ j.aliasName = aliasName ∧ j.source = .table ∧
      j.target = term ∧ j.table = t.table

/-- The scoping rules for the view of a term. -/
structure ViewSchema.WellScoped (g : Graph) (o : ResolutionOptions) (key : Key)
    (v : ViewSchema) : Prop where
  term_eq : v.term = key
  joins_numbered : ∀ n j, v.joins[n]? = some j → j.aliasName = "t" ++ toString (n + 1)
  joins_hang : ∀ n j, v.joins[n]? = some j → ∃ t, g.table o j.parentTerm = .ok t ∧
    v.TableStands n j.parentAlias j.parentTerm t ∧ j.fkColumn ∈ t.columnNames
  joins_identify : ∀ j ∈ v.joins, ∃ identifier rest,
    j.Reads g o v (identifier :: rest) ∧ j.keyColumn = identifier.name
  names_nodup : v.columnNames.Nodup
  identifier_first : ∃ identifier rest, v.columns = identifier :: rest ∧
    identifier.toColumn = g.identifierColumn o key ∧ identifier.aliasName = "t0"
  columns_supplied : ∀ c ∈ v.columns, ∃ columns, v.Supplies g o c.aliasName columns ∧
    ∃ k ∈ columns, k.carried = c.toColumn.carried

namespace ViewSchema.WellScoped

variable {g : Graph} {o : ResolutionOptions} {key : Key} {v : ViewSchema}

theorem aliases_eq (h : v.WellScoped g o key) :
    v.joins.map Join.aliasName = (List.range v.joins.length).map fun n => aliasAt (n + 1) := by
  refine List.ext_getElem (by simp) fun n hn _ => ?_
  rw [List.length_map] at hn
  rw [List.getElem_map, List.getElem_map, List.getElem_range]
  exact h.joins_numbered n v.joins[n] (List.getElem?_eq_getElem hn)

theorem isWellFormed (h : v.WellScoped g o key) (hbase : v.baseAlias = Glossary.baseAlias) :
    v.IsWellFormed := by
  obtain ⟨identifier, rest, hcolumns, hidentifier, halias⟩ := h.identifier_first
  constructor
  case keyed =>
    exact ⟨identifier, rest, hcolumns, congrArg Column.role hidentifier, halias.trans hbase.symm⟩
  case joins_hang =>
    intro before j after hsplit
    have hj : v.joins[before.length]? = some j := by simp [hsplit]
    obtain ⟨t, -, hstands, -⟩ := h.joins_hang before.length j hj
    rcases hstands with ⟨hparent, -⟩ | ⟨m, hm, i, hi, hparent, -⟩
    · exact Or.inl (hparent.trans hbase.symm)
    · rw [hsplit, List.getElem?_append_left hm] at hi
      exact Or.inr ⟨i, List.mem_of_getElem? hi, hparent⟩
  case aliases_nodup =>
    rw [h.aliases_eq]
    exact List.nodup_range.map fun m n heq => Nat.succ.inj (aliasAt_inj.mp heq)
  case aliases_ne =>
    intro j hj heq
    have hmem : aliasAt 0 ∈ v.joins.map Join.aliasName :=
      List.mem_map.mpr ⟨j, hj, heq.trans hbase⟩
    rw [h.aliases_eq] at hmem
    obtain ⟨n, -, hn⟩ := List.mem_map.mp hmem
    exact absurd (aliasAt_inj.mp hn) (Nat.succ_ne_zero n)
  case columns_scoped =>
    intro c hc
    obtain ⟨columns, hsupplies, -⟩ := h.columns_supplied c hc
    rw [hbase]
    generalize c.aliasName = x at hsupplies
    cases hsupplies with
    | base _ _ => exact Or.inl rfl
    | join hj _ => exact Or.inr ⟨_, hj, rfl⟩
  case names_nodup => exact h.names_nodup

end ViewSchema.WellScoped

namespace Graph

variable {g : Graph} {o : ResolutionOptions} {key : Key}

namespace Assembles

variable {table : TableSchema} {exposed parents : List Attachment} {v : ViewSchema}

theorem exists_split (h : g.Assembles o key table exposed parents v) {n : Nat} {j : Join}
    (hj : v.joins[n]? = some j) :
    ∃ before a after, exposed ++ parents = before ++ a :: after ∧ before.length = n ∧
      a.join = j := by
  rw [h.joins_eq, List.getElem?_map, Option.map_eq_some_iff] at hj
  obtain ⟨a, ha, rfl⟩ := hj
  obtain ⟨hn, rfl⟩ := List.getElem?_eq_some_iff.mp ha
  refine ⟨(exposed ++ parents).take n, _, (exposed ++ parents).drop (n + 1), ?_,
    List.length_take_of_le (Nat.le_of_lt hn), rfl⟩
  rw [← List.drop_eq_getElem_cons hn, List.take_append_drop]

theorem joins_getElem? (h : g.Assembles o key table exposed parents v)
    {before after : List Attachment} (hsplit : exposed ++ parents = before ++ after) {m : Nat}
    {a : Attachment} (ha : before[m]? = some a) : v.joins[m]? = some a.join := by
  obtain ⟨hm, -⟩ := List.getElem?_eq_some_iff.mp ha
  rw [h.joins_eq, hsplit, List.getElem?_map, List.getElem?_append_left hm, ha]
  rfl

theorem mem_joins (h : g.Assembles o key table exposed parents v) {a : Attachment}
    (ha : a ∈ exposed ++ parents) : a.join ∈ v.joins :=
  h.joins_eq ▸ List.mem_map_of_mem ha

theorem isAttached (h : g.Assembles o key table exposed parents v) {a : Attachment}
    (ha : a ∈ exposed ++ parents) : ∃ before, g.IsAttached o key before a := by
  obtain ⟨before, after, hsplit⟩ := List.append_of_mem ha
  exact ⟨before, Attached.isAttached (hsplit ▸ h.attached)⟩

/-- A join reads the identifier of its target first, and what is shown is what the join reads, up
to nullability. -/
theorem exists_reads (h : g.Assembles o key table exposed parents v) {a : Attachment}
    (ha : a ∈ exposed ++ parents) :
    ∃ rest, a.join.Reads g o v (g.identifierColumn o a.join.target :: rest) ∧
      (a.columns.map fun c => c.toColumn.carried) =
        (g.identifierColumn o a.join.target :: rest).map Column.carried := by
  obtain ⟨before, hattached⟩ := h.isAttached ha
  rcases hattached.reads with ⟨t, ht⟩ | ⟨s, hs⟩
  · obtain ⟨rest, hrest⟩ :=
      List.head?_eq_some_iff.mp (isTable_of_table_eq_ok ht.table_eq_ok).identifier_eq
    have hreads := Join.Reads.table (v := v) ht.source_eq ht.table_eq_ok ht.name_eq
    have hcolumns := ht.columns_eq
    rw [hrest] at hreads hcolumns
    exact ⟨rest, hreads, hcolumns⟩
  · have hembedded : s ∈ v.ancestors := by
      rw [h.ancestors_eq]
      exact List.mem_flatMap.mpr ⟨a, ha, by simp [hs.embedded_eq]⟩
    obtain ⟨table', exposed', parents', hs'⟩ := exists_assembles hs.view_eq_ok
    obtain ⟨rest, hrest⟩ := List.head?_eq_some_iff.mp hs'.identifier_eq
    have hreads := Join.Reads.view (o := o) hs.source_eq hs.view_eq_ok hembedded hs.name_eq
    have hcolumns := hs.columns_eq
    rw [hrest] at hreads hcolumns
    refine ⟨rest.map ViewColumn.toColumn, hreads, ?_⟩
    rw [hcolumns, List.map_cons, List.map_cons, List.map_map]
    rfl

theorem exists_table_stands (h : g.Assembles o key table exposed parents v) {n : Nat}
    {j : Join} (hj : v.joins[n]? = some j) :
    ∃ t, g.table o j.parentTerm = .ok t ∧ v.TableStands n j.parentAlias j.parentTerm t := by
  obtain ⟨before, a, after, hsplit, rfl, rfl⟩ := h.exists_split hj
  have ha : g.IsAttached o key before a := Attached.isAttached (hsplit ▸ h.attached)
  rcases ha.stands with ⟨halias, hterm⟩ | ⟨p, hp, m, hop, t, ht, rfl, halias, hterm⟩
  · rw [hterm]
    exact ⟨table, h.table_eq_ok, Or.inl ⟨halias, h.term_eq.symm, h.baseTable_eq⟩⟩
  · obtain ⟨i, hi⟩ := List.mem_iff_getElem?.mp hp
    obtain ⟨hlt, -⟩ := List.getElem?_eq_some_iff.mp hi
    refine ⟨t, hterm ▸ ht, Or.inr ⟨i, hlt, _, h.joins_getElem? hsplit hi, halias, ?_⟩⟩
    exact ⟨rfl, hterm, rfl⟩

theorem wellScoped (h : g.Assembles o key table exposed parents v) : v.WellScoped g o key where
  term_eq := h.term_eq
  joins_numbered := by
    intro n j hj
    obtain ⟨before, a, after, hsplit, rfl, rfl⟩ := h.exists_split hj
    exact (Attached.isAttached (hsplit ▸ h.attached)).alias_eq
  joins_hang := by
    intro n j hj
    obtain ⟨t, ht, hstands⟩ := h.exists_table_stands hj
    obtain ⟨before, a, after, hsplit, -, rfl⟩ := h.exists_split hj
    have ha : g.IsAttached o key before a := Attached.isAttached (hsplit ▸ h.attached)
    refine ⟨t, ht, hstands, ?_⟩
    rw [ha.fkColumn_eq]
    exact (isTable_of_table_eq_ok ht).mem_columnNames_of_storesIdentifier ha.stores
  joins_identify := by
    intro j hj
    rw [h.joins_eq] at hj
    obtain ⟨a, ha, rfl⟩ := List.mem_map.mp hj
    obtain ⟨rest, hreads, -⟩ := h.exists_reads ha
    obtain ⟨before, hattached⟩ := h.isAttached ha
    exact ⟨_, rest, hreads, hattached.keyColumn_eq⟩
  names_nodup := (Draft.addAll_extends h.columns_of).nodup List.nodup_nil
  identifier_first := by
    obtain ⟨rest, hrest⟩ := List.head?_eq_some_iff.mp h.identifier_eq
    exact ⟨_, rest, hrest, rfl, rfl⟩
  columns_supplied := by
    intro c hc
    rcases (Draft.addAll_extends h.columns_of).contributed c hc with hc | hc
    · cases hc
    · rcases List.mem_append.mp hc with hc | hc
      · obtain ⟨k, hk, rfl⟩ := List.mem_map.mp hc
        exact ⟨_, .base (h.term_eq ▸ h.table_eq_ok) h.baseTable_eq, k, hk, rfl⟩
      · obtain ⟨a, ha, hc⟩ := List.mem_flatMap.mp hc
        obtain ⟨rest, hreads, hcolumns⟩ := h.exists_reads ha
        obtain ⟨before, hattached⟩ := h.isAttached ha
        have hcarried : c.toColumn.carried ∈ a.columns.map fun c => c.toColumn.carried :=
          List.mem_map_of_mem hc
        rw [hcolumns] at hcarried
        rw [hattached.shown c hc]
        exact ⟨_, .join (h.mem_joins ha) hreads, List.mem_map.mp hcarried⟩

theorem isWellFormed (h : g.Assembles o key table exposed parents v) : v.IsWellFormed :=
  h.wellScoped.isWellFormed h.baseAlias_eq

theorem faults_eq_nil (h : g.Assembles o key table exposed parents v) : v.faults = [] :=
  ViewSchema.faults_eq_nil_iff.mpr h.isWellFormed

end Assembles

/-- Every view that is resolved is well scoped, and its validation finds no fault. -/
theorem view_wellScoped {g : Graph} {o : ResolutionOptions} {key : Key} {v : ViewSchema}
    (h : g.view o key = .ok v) : v.WellScoped g o key ∧ v.faults = [] := by
  obtain ⟨table, exposed, parents, hassembles⟩ := exists_assembles h
  exact ⟨hassembles.wellScoped, hassembles.faults_eq_nil⟩

theorem manager_wellScoped : ∃ v, staff.view .standard "manager" = .ok v ∧
    v.WellScoped staff .standard "manager" ∧ v.faults = [] := by
  obtain ⟨v, hv, -⟩ := Fallible.exists_of_map_eq_ok staff_view_manager
  exact ⟨v, hv, view_wellScoped hv⟩

end Graph

end Glossary
