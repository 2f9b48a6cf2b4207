import Glossary.Proofs.ViewScope

/-!
A join that compares the column of one term with the identifier of another does not go unnoticed.
Both columns are contributed to the view under one name, wherever the table that keeps the first of
them stands, so that one of the two terms loses the name to the other or to a third.
-/

namespace Glossary

/-- The join compares the column of its target with the identifier of its target. -/
structure Join.ComparesTarget (g : Graph) (o : ResolutionOptions) (j : Join) : Prop where
  fkColumn_carries : ∃ t c, g.table o j.parentTerm = .ok t ∧ t.column? j.fkColumn = some c ∧
    c.term = j.target
  keyColumn_eq : j.keyColumn = (g.identifierColumn o j.target).name

namespace Graph.Assembles

variable {g : Graph} {o : ResolutionOptions} {key : Key} {table : TableSchema}
  {exposed parents : List Attachment} {v : ViewSchema}

theorem exists_contribution_of_parent (h : g.Assembles o key table exposed parents v)
    {a : Attachment} (ha : a ∈ exposed ++ parents) {t : TableSchema}
    (ht : g.table o a.join.parentTerm = .ok t) {k : Column} (hk : k ∈ t.columns) :
    ∃ c ∈ viewContributions table (exposed ++ parents), c.toColumn.carried = k.carried := by
  obtain ⟨before, after, hsplit⟩ := List.append_of_mem ha
  have hattached : g.IsAttached o key before a := Attached.isAttached (hsplit ▸ h.attached)
  rcases hattached.stands with ⟨-, hterm⟩ | ⟨p, hp, n, hop, t', ht', rfl, -, hterm⟩
  · obtain rfl := Except.ok.inj (h.table_eq_ok.symm.trans (hterm ▸ ht))
    exact ⟨_, List.mem_append_left _ (List.mem_map_of_mem hk), rfl⟩
  · obtain rfl := Except.ok.inj (ht'.symm.trans (hterm ▸ ht))
    have hmem : g.tableAttachment n hop t' ∈ exposed ++ parents :=
      hsplit ▸ List.mem_append_left _ hp
    have hshown : k.shownBy (aliasAt (n + 1)) t'.label hop.isOptional ∈
        (g.tableAttachment n hop t').columns := List.mem_map_of_mem hk
    exact ⟨_, List.mem_append_right _ (List.mem_flatMap.mpr ⟨_, hmem, hshown⟩), rfl⟩

theorem exists_contribution_of_target (h : g.Assembles o key table exposed parents v)
    {a : Attachment} (ha : a ∈ exposed ++ parents) :
    ∃ c ∈ viewContributions table (exposed ++ parents),
      c.toColumn.carried = (g.identifierColumn o a.join.target).carried := by
  obtain ⟨rest, -, hcolumns⟩ := h.exists_reads ha
  have hmem : (g.identifierColumn o a.join.target).carried ∈
      a.columns.map fun c => c.toColumn.carried := by
    rw [hcolumns]
    exact List.mem_cons_self
  obtain ⟨c, hc, hcarried⟩ := List.mem_map.mp hmem
  exact ⟨c, List.mem_append_right _ (List.mem_flatMap.mpr ⟨a, ha, hc⟩), hcarried⟩

theorem isConflict_of_mem_issues (h : g.Assembles o key table exposed parents v) {i : Issue}
    (hi : i ∈ v.issues) : i.IsConflict := by
  rcases (Draft.addAll_extends h.columns_of).conflicts i hi with hi | hi
  · exact (isTable_of_table_eq_ok h.table_eq_ok).conflicts i hi
  · exact hi

/-- Without anomalies, columns of one name carry one term. -/
theorem term_eq_of_contributions (h : g.Assembles o key table exposed parents v)
    (hissues : v.issues = []) {c c' : ViewColumn}
    (hc : c ∈ viewContributions table (exposed ++ parents))
    (hc' : c' ∈ viewContributions table (exposed ++ parents))
    (hname : c.name = c'.name) : c.term = c'.term := by
  have hextends := Draft.addAll_extends h.columns_of
  obtain ⟨k, hk, hkname, hkterm⟩ := hextends.named c hc
  obtain ⟨k', hk', hkname', hkterm'⟩ := hextends.named c' hc'
  have hsame : k = k' := List.inj_on_of_nodup_map (hextends.nodup List.nodup_nil) hk hk'
    (hkname.trans (hname.trans hkname'.symm))
  rw [← hkterm hissues, hsame, hkterm' hissues]

theorem comparesTarget_of_issues_eq_nil (h : g.Assembles o key table exposed parents v)
    (hissues : v.issues = []) {a : Attachment} (ha : a ∈ exposed ++ parents) :
    a.join.ComparesTarget g o := by
  obtain ⟨before, hattached⟩ := h.isAttached ha
  refine ⟨?_, hattached.keyColumn_eq⟩
  obtain ⟨n, hn⟩ := List.mem_iff_getElem?.mp (h.mem_joins ha)
  obtain ⟨t, ht, -⟩ := h.exists_table_stands hn
  have htable := isTable_of_table_eq_ok ht
  obtain ⟨k, hk, hkname⟩ := List.mem_map.mp
    (htable.mem_columnNames_of_storesIdentifier hattached.stores)
  refine ⟨t, k, ht, ?_, ?_⟩
  · rw [hattached.fkColumn_eq, ← hkname]
    exact TableSchema.column?_eq_some htable.nodup hk
  · obtain ⟨c, hc, hcarried⟩ := h.exists_contribution_of_parent ha ht hk
    obtain ⟨c', hc', hcarried'⟩ := h.exists_contribution_of_target ha
    have hname : c.name = c'.name :=
      (congrArg Column.name hcarried).trans
        (hkname.trans (congrArg Column.name hcarried').symm)
    calc k.term = c.term := (congrArg Column.term hcarried).symm
      _ = c'.term := h.term_eq_of_contributions hissues hc hc' hname
      _ = a.join.target := congrArg Column.term hcarried'

end Graph.Assembles

/-- Without anomalies every join compares the column of its target with the identifier of its
target; a join that compares anything else is reported. -/
theorem Graph.joins_compareTarget {g : Graph} {o : ResolutionOptions} {key : Key} {v : ViewSchema}
    (h : g.view o key = .ok v) :
    (v.issues = [] → ∀ j ∈ v.joins, j.ComparesTarget g o) ∧
      ((∃ j ∈ v.joins, ¬ j.ComparesTarget g o) →
        ∃ i ∈ v.issues, i.code = "AMBIGUOUS_IDENTIFIER" ∨ i.code = "DUPLICATE_COLUMN") := by
  obtain ⟨table, exposed, parents, hassembles⟩ := exists_assembles h
  have hsilent : v.issues = [] → ∀ j ∈ v.joins, j.ComparesTarget g o := by
    intro hissues j hj
    rw [hassembles.joins_eq] at hj
    obtain ⟨a, ha, rfl⟩ := List.mem_map.mp hj
    exact hassembles.comparesTarget_of_issues_eq_nil hissues ha
  refine ⟨hsilent, ?_⟩
  rintro ⟨j, hj, hwrong⟩
  obtain ⟨i, hi⟩ := List.exists_mem_of_ne_nil v.issues fun hissues => hwrong (hsilent hissues j hj)
  exact ⟨i, hi, hassembles.isConflict_of_mem_issues hi⟩

theorem report_joins_compareTarget : ∃ v, staff.view .standard "report" = .ok v ∧
    v.issues = [] ∧ ∀ j ∈ v.joins, j.ComparesTarget staff .standard := by
  obtain ⟨v, hv, hmap⟩ := Fallible.exists_of_map_eq_ok staff_view_report
  have hissues : v.issues = [] := List.map_eq_nil_iff.mp (congrArg Prod.snd hmap)
  exact ⟨v, hv, hissues, (Graph.joins_compareTarget hv).1 hissues⟩

end Glossary
