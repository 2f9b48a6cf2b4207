import Glossary.Proofs.IntegrityChecks
import Glossary.Proofs.JoinKeys
import Glossary.Proofs.JoinPath
import Glossary.Proofs.StatementColumns

/-!
Rows of a view that refer to nothing. A left join keeps them, so a check that reads the view over
left joins can fail: there are tables in which a row of the base table refers, over all joins on the
way, to a value that the table of the joined term does not have.
-/

namespace Glossary

open Fallible Sql

/-- What the term has is neither a parent of it nor something that it must have. -/
def Graph.CompositionsApart (g : Graph) (key : Key) : Prop :=
  ∀ l ∈ g.compositions key, l.target ∉ g.parents key ∧
    ∀ l' ∈ g.requirements key, l'.target ≠ l.target

/-- A row of ones, but for its identifier and for the two that it refers to in `fkColumn`. -/
def orphanRow (fkColumn identifier : String) : Row ℕ :=
  Function.update (Function.update (constantRow 1) fkColumn (some 2)) identifier (some 3)

/-- Every table has a row of ones and a row of twos, but the row of twos is missing from `target`. The
table `base` has a row more. -/
def orphanDatabase (target base : String) (r : Row ℕ) : Database ℕ := fun name =>
  if name = target then [constantRow 1]
  else if name = base then [constantRow 1, constantRow 2, r]
  else [constantRow 1, constantRow 2]

section Databases

variable {target base fkColumn identifier name : String} {r : Row ℕ}

theorem orphanRow_identifier : orphanRow fkColumn identifier identifier = some 3 :=
  Function.update_self ..

theorem orphanRow_fkColumn (h : fkColumn ≠ identifier) :
    orphanRow fkColumn identifier fkColumn = some 2 := by
  rw [orphanRow, Function.update_of_ne h, Function.update_self]

theorem orphanRow_of_ne (hfk : name ≠ fkColumn) (hidentifier : name ≠ identifier) :
    orphanRow fkColumn identifier name = some 1 := by
  rw [orphanRow, Function.update_of_ne hidentifier, Function.update_of_ne hfk, constantRow]

theorem constantRow_one_mem_orphanDatabase : constantRow 1 ∈ orphanDatabase target base r name := by
  unfold orphanDatabase
  split_ifs
  all_goals simp

theorem constantRow_two_mem_orphanDatabase (h : name ≠ target) :
    constantRow 2 ∈ orphanDatabase target base r name := by
  rw [orphanDatabase, if_neg h]
  split_ifs
  all_goals simp

theorem identifies_orphanDatabase {column : String}
    (h : name = base → r column = some 3) :
    Identifies column (orphanDatabase target base r name) := by
  unfold orphanDatabase
  split_ifs with htarget hbase
  · exact ⟨by simp [constantRow], by simp⟩
  · exact ⟨by simp [constantRow, h hbase], by simp [constantRow, h hbase]⟩
  · exact ⟨by simp [constantRow], by simp [constantRow]⟩

end Databases

namespace Graph

variable {g : Graph} {primitives : Primitives} {terms : List Term} {o : ResolutionOptions}
  {key target : Key} {fkColumn : String}

/-- The table of `target` has no row of twos, and that of `key` has a row that refers to one. -/
def orphans (g : Graph) (o : ResolutionOptions) (key target : Key) (fkColumn : String) :
    Database ℕ :=
  orphanDatabase (Name.table (g.label target)) (Name.table (g.label key))
    (orphanRow fkColumn (g.identifierColumn o key).name)

theorem orphans_target :
    g.orphans o key target fkColumn (Name.table (g.label target)) = [constantRow 1] :=
  if_pos rfl

theorem constantRow_two_mem_orphans {other : Key} (hg : build primitives terms = .ok g)
    (hnames : (terms.map fun t => Name.snakeCase t.name).Nodup) (hother : g.declares other = true)
    (htarget : g.declares target = true) (hne : other ≠ target) :
    constantRow 2 ∈ g.orphans o key target fkColumn (Name.table (g.label other)) :=
  constantRow_two_mem_orphanDatabase fun hsame =>
    hne (eq_of_table_eq hg hnames hother htarget hsame)

theorem orphanRow_mem_orphans (hg : build primitives terms = .ok g)
    (hnames : (terms.map fun t => Name.snakeCase t.name).Nodup) (hkey : g.declares key = true)
    (htarget : g.declares target = true) (hne : key ≠ target) :
    orphanRow fkColumn (g.identifierColumn o key).name ∈
      g.orphans o key target fkColumn (Name.table (g.label key)) := by
  rw [orphans, orphanDatabase, if_neg, if_pos rfl]
  · simp
  · exact fun hsame => hne (eq_of_table_eq hg hnames hkey htarget hsame)

theorem keyed_orphans (hg : build primitives terms = .ok g)
    (hnames : (terms.map fun t => Name.snakeCase t.name).Nodup) (hkey : g.declares key = true) :
    g.Keyed o (g.orphans o key target fkColumn) := by
  intro other t c hother ht hc
  have htable := isTable_of_table_eq_ok ht
  refine identifies_orphanDatabase fun hname => ?_
  rw [htable.table_eq] at hname
  obtain rfl := eq_of_table_eq hg hnames hother hkey hname
  rw [htable.identifier_eq] at hc
  obtain rfl := Option.some.inj hc
  exact orphanRow_identifier

namespace Assembles

variable {table : TableSchema} {exposed parents : List Attachment} {v : ViewSchema} {i j : Join}

/-- What stands at the alias of a join cannot supply a name that came before. -/
theorem exists_alias_le_of_column? (h : g.Assembles o key table exposed parents v) {n : ℕ}
    (hj : v.joins[n]? = some j) {c : ViewColumn}
    (hc : v.column? (g.identifierColumn o j.target).name = some c) :
    ∃ m ≤ n + 1, c.aliasName = aliasAt m := by
  obtain ⟨before, a, after, hsplit, rfl, rfl⟩ := h.exists_split hj
  have hupto : exposed ++ parents = (before ++ [a]) ++ after := by simp [hsplit]
  have ha : a ∈ exposed ++ parents := by simp [hsplit]
  -- the identifier of the target is among what has been contributed up to here
  obtain ⟨rest, -, hcolumns⟩ := h.exists_reads ha
  have hidentifier : (g.identifierColumn o a.join.target).carried ∈
      a.columns.map fun c => c.toColumn.carried := by
    rw [hcolumns]
    exact List.mem_cons_self
  obtain ⟨k, hk, hcarried⟩ := List.mem_map.mp hidentifier
  have hkname : k.toColumn.carried.name = (g.identifierColumn o a.join.target).carried.name :=
    congrArg Column.name hcarried
  have hfind := Draft.addAll_find? h.columns_of (g.identifierColumn o a.join.target).name
  rw [List.nil_append, viewContributions, hupto, List.flatMap_append, ← List.append_assoc,
    List.find?_append] at hfind
  have hsome : ((table.baseColumns ++ (before ++ [a]).flatMap Attachment.columns).find? fun k =>
      k.name == (g.identifierColumn o a.join.target).name).isSome = true := by
    refine List.find?_isSome.mpr ⟨k, ?_, beq_iff_eq.mpr hkname⟩
    exact List.mem_append_right _ (List.mem_flatMap.mpr ⟨a, by simp, hk⟩)
  rw [Option.or_of_isSome hsome] at hfind
  have hmem := List.mem_of_find?_eq_some (hfind.symm.trans hc)
  rcases List.mem_append.mp hmem with hmem | hmem
  · obtain ⟨own, -, rfl⟩ := List.mem_map.mp hmem
    exact ⟨0, Nat.zero_le _, rfl⟩
  · obtain ⟨b, hb, hmem⟩ := List.mem_flatMap.mp hmem
    obtain ⟨m, hm⟩ := List.mem_iff_getElem?.mp hb
    obtain ⟨hlt, -⟩ := List.getElem?_eq_some_iff.mp hm
    rw [List.length_append, List.length_singleton] at hlt
    have hb' : b ∈ exposed ++ parents := by
      rw [hupto]
      exact List.mem_append_left _ hb
    obtain ⟨_, hattached⟩ := h.isAttached hb'
    refine ⟨m + 1, hlt, (hattached.shown c hmem).trans ?_⟩
    exact h.wellScoped.joins_numbered m b.join (h.joins_getElem? hupto hm)

/-- The joins from which a left join hangs, directly or not, are left and come earlier. The first
of them hangs from the base table. -/
theorem exists_way (h : g.Assembles o key table exposed parents v) {n : ℕ}
    (hj : v.joins[n]? = some j) (hleft : j.kind = .left) :
    ∃ (top : Join) (way : List Join),
      top ∈ v.joins ∧ top.kind = .left ∧ top.parentAlias = baseAlias ∧ j ∈ way ∧
      (∀ i ∈ way, i.kind = .left ∧ (i = j ∨ ∃ m < n, v.joins[m]? = some i)) ∧
      ∀ i ∈ way, i = top ∨ ∃ i' ∈ way, i'.aliasName = i.parentAlias := by
  induction n using Nat.strong_induction_on generalizing j with
  | _ n ih =>
      rcases h.base_or_hangs hj with ⟨hbase, -⟩ | ⟨m, hlt, i, hi, halias, -, -, hkind⟩
      · refine ⟨j, [j], List.mem_of_getElem? hj, hleft, hbase, List.mem_singleton_self j, ?_, ?_⟩
        · simp [hleft]
        · simp
      · obtain ⟨top, way, htop, htopLeft, hbase, hiway, hway, hhangs⟩ :=
          ih m hlt hi (hkind.mp hleft)
        refine ⟨top, j :: way, htop, htopLeft, hbase, List.mem_cons_self, ?_, ?_⟩
        · rw [List.forall_mem_cons]
          refine ⟨⟨hleft, Or.inl rfl⟩, fun i' hi' => ⟨(hway i' hi').1, Or.inr ?_⟩⟩
          rcases (hway i' hi').2 with rfl | ⟨m', hlt', hm'⟩
          · exact ⟨m, hlt, hi⟩
          · exact ⟨m', hlt'.trans hlt, hm'⟩
        · rw [List.forall_mem_cons]
          refine ⟨Or.inr ⟨i, List.mem_cons_of_mem j hiway, halias⟩, fun i' hi' => ?_⟩
          refine (hhangs i' hi').imp_right ?_
          rintro ⟨i'', hi'', halias'⟩
          exact ⟨i'', List.mem_cons_of_mem j hi'', halias'⟩

/-- The way from what a shown left join refers to, up to the base table, does not pass the target of
the join: its identifier would be shown from there instead. -/
theorem exists_way_of_shows (h : g.Assembles o key table exposed parents v) (hj : j ∈ v.joins)
    (hleft : j.kind = .left) (hshows : v.Shows j) :
    ∃ (top : Join) (way : List Join),
      top ∈ v.joins ∧ top.kind = .left ∧ top.parentAlias = baseAlias ∧
      (∀ i ∈ way, i ∈ v.joins ∧ i.kind = .left ∧ i.target ≠ j.target ∧
        (i = top ∨ ∃ i' ∈ way, i'.aliasName = i.parentAlias)) ∧
      (j = top ∨ ∃ i ∈ way, i.aliasName = j.parentAlias) := by
  obtain ⟨n, hn⟩ := List.mem_iff_getElem?.mp hj
  rcases h.base_or_hangs hn with ⟨hbase, -⟩ | ⟨m, -, i, hi, halias, htarget, -, hkind⟩
  · exact ⟨j, [], hj, hleft, hbase, by simp, Or.inl rfl⟩
  obtain ⟨top, way, htop, htopLeft, hbase, hiway, hway, hhangs⟩ := h.exists_way hi (hkind.mp hleft)
  refine ⟨top, way, htop, htopLeft, hbase, fun k hk => ?_, Or.inr ⟨i, hiway, halias⟩⟩
  rcases (hway k hk).2 with rfl | ⟨m', hlt, hm'⟩
  · refine ⟨List.mem_of_getElem? hi, (hway k hk).1, ?_, hhangs k hk⟩
    rw [htarget]
    exact h.parentTerm_ne_target hj
  · refine ⟨List.mem_of_getElem? hm', (hway k hk).1, fun hsame => ?_, hhangs k hk⟩
    obtain ⟨c, hc, hshown⟩ := hshows
    rw [(h.columns_eq hj).1, ← hsame] at hc
    obtain ⟨q, hle, hq⟩ := h.exists_alias_le_of_column? hm' hc
    rw [hshown, ← halias, h.wellScoped.joins_numbered m i hi, ← aliasAt, aliasAt_inj] at hq
    omega

theorem target_ne_of_shows (h : g.Assembles o key table exposed parents v) (hj : j ∈ v.joins)
    (hshows : v.Shows j) : j.target ≠ key := by
  intro hsame
  obtain ⟨c, hc, hshown⟩ := hshows
  obtain ⟨rest, hcolumns⟩ := List.head?_eq_some_iff.mp h.identifier_eq
  rw [(h.columns_eq hj).1, hsame, ViewSchema.column?, hcolumns, List.find?_cons_of_pos] at hc
  · obtain rfl := Option.some.inj hc
    obtain ⟨n, hn⟩ := List.mem_iff_getElem?.mp hj
    rcases h.base_or_hangs hn with ⟨-, hterm⟩ | ⟨m, -, i, hi, halias, -⟩
    · exact h.parentTerm_ne_target hj (hterm.trans hsame.symm)
    · exact h.alias_ne_base (List.mem_of_getElem? hi) (halias.trans hshown.symm)
  · simp [Column.shownBy]

/-- What hangs from the base table follows a statement of the term. -/
theorem base_step_cases (h : g.Assembles o key table exposed parents v) (hj : j ∈ v.joins)
    (hbase : j.parentAlias = baseAlias) :
    (j.kind = .left ∧ ∃ l ∈ g.compositions key, l.target = j.target) ∨
      (j.kind = .inner ∧
        (j.target ∈ g.parents key ∨ ∃ l ∈ g.requirements key, l.target = j.target)) := by
  have hmem : j.step ∈ (joinsFrom baseAlias v.joins).map Join.step :=
    List.mem_map_of_mem (List.mem_filter.mpr ⟨hj, beq_iff_eq.mpr hbase⟩)
  rw [h.map_step_joinsFrom_base] at hmem
  rcases List.mem_append.mp hmem with hmem | hmem
  · obtain ⟨l, hl, hstep⟩ := List.mem_map.mp hmem
    have hreference := List.mem_of_mem_filter hl
    obtain ⟨hedge, hkind⟩ := Prod.mk.injEq .. ▸ hstep
    have htarget : l.target = j.target := congrArg (fun e => e.2.1) hedge
    by_cases hcomposes : l.relation = .composes
    · rw [if_pos hcomposes] at hkind
      exact Or.inl ⟨hkind.symm, l, List.mem_filter.mpr ⟨hreference, by simp [hcomposes]⟩, htarget⟩
    · rw [if_neg hcomposes] at hkind
      have hrequires : l.relation = .requires := by
        simpa [hcomposes] using List.of_mem_filter hreference
      refine Or.inr ⟨hkind.symm, Or.inr ⟨l, ?_, htarget⟩⟩
      exact List.mem_filter.mpr ⟨hreference, by simp [hrequires]⟩
  · obtain ⟨parent, hparent, hstep⟩ := List.mem_map.mp hmem
    obtain ⟨hedge, hkind⟩ := Prod.mk.injEq .. ▸ hstep
    have htarget : parent = j.target := congrArg (fun e => e.2.1) hedge
    exact Or.inr ⟨hkind.symm, Or.inl (htarget ▸ hparent)⟩

theorem target_ne_of_inner (h : g.Assembles o key table exposed parents v)
    (hapart : g.CompositionsApart key) (hj : j ∈ v.joins) (hleft : j.kind = .left)
    (hjbase : j.parentAlias = baseAlias) (hi : i ∈ v.joins) (hinner : i.kind = .inner)
    (hibase : i.parentAlias = baseAlias) : i.target ≠ j.target := by
  rcases h.base_step_cases hj hjbase with ⟨-, l, hl, hltarget⟩ | ⟨hkind, -⟩
  · obtain ⟨hparents, hrequirements⟩ := hapart l hl
    rcases h.base_step_cases hi hibase with ⟨hkind, -⟩ | ⟨-, hparent | ⟨l', hl', htarget⟩⟩
    · cases hinner.symm.trans hkind
    · rintro hsame
      exact hparents (hltarget ▸ hsame ▸ hparent)
    · rw [← htarget, ← hltarget]
      exact hrequirements l' hl'
  · cases hkind.symm.trans hleft

theorem parentTerm_eq_of_base (h : g.Assembles o key table exposed parents v) (hj : j ∈ v.joins)
    (hbase : j.parentAlias = baseAlias) : j.parentTerm = key := by
  obtain ⟨n, hn⟩ := List.mem_iff_getElem?.mp hj
  rcases h.base_or_hangs hn with ⟨-, hparent⟩ | ⟨m, -, i, hi, halias, -⟩
  · exact hparent
  · exact absurd (halias.trans hbase) (h.alias_ne_base (List.mem_of_getElem? hi))

theorem target_ne_of_base (h : g.Assembles o key table exposed parents v) (hj : j ∈ v.joins)
    (hbase : j.parentAlias = baseAlias) : j.target ≠ key :=
  h.parentTerm_eq_of_base hj hbase ▸ (h.parentTerm_ne_target hj).symm

/-- Without anomalies, what hangs from the base table compares the column of its target there. -/
theorem exists_column_of_base (h : g.Assembles o key table exposed parents v)
    (hissues : v.issues = []) (hj : j ∈ v.joins) (hbase : j.parentAlias = baseAlias) :
    ∃ c, table.column? j.fkColumn = some c ∧ c.term = j.target := by
  have hparent := h.parentTerm_eq_of_base hj hbase
  obtain ⟨a, ha, rfl⟩ := h.exists_attachment hj
  obtain ⟨t, c, ht, hc, hterm⟩ := (h.comparesTarget_of_issues_eq_nil hissues ha).fkColumn_carries
  rw [hparent, h.table_eq_ok] at ht
  obtain rfl := Except.ok.inj ht
  exact ⟨c, hc, hterm⟩

theorem fkColumn_ne_of_target_ne (h : g.Assembles o key table exposed parents v)
    (hissues : v.issues = []) (hi : i ∈ v.joins) (hj : j ∈ v.joins)
    (hibase : i.parentAlias = baseAlias) (hjbase : j.parentAlias = baseAlias)
    (hne : i.target ≠ j.target) : i.fkColumn ≠ j.fkColumn := by
  intro hsame
  obtain ⟨c, hc, hterm⟩ := h.exists_column_of_base hissues hi hibase
  obtain ⟨c', hc', hterm'⟩ := h.exists_column_of_base hissues hj hjbase
  rw [hsame, hc'] at hc
  obtain rfl := Option.some.inj hc
  exact hne (hterm.symm.trans hterm')

theorem fkColumn_ne_identifier (h : g.Assembles o key table exposed parents v)
    (hissues : v.issues = []) (hj : j ∈ v.joins) (hbase : j.parentAlias = baseAlias) :
    j.fkColumn ≠ (g.identifierColumn o key).name := by
  intro hsame
  obtain ⟨c, hc, hterm⟩ := h.exists_column_of_base hissues hj hbase
  have htable := isTable_of_table_eq_ok h.table_eq_ok
  rw [hsame, TableSchema.column?_eq_some htable.nodup
    (List.mem_of_mem_head? htable.identifier_eq)] at hc
  obtain rfl := Option.some.inj hc
  exact h.target_ne_of_base hj hbase hterm.symm

/-- No inner join of the base table compares the two that the first join of the way refers to. -/
theorem orphanRow_of_inner (h : g.Assembles o key table exposed parents v)
    (hissues : v.issues = []) (hapart : g.CompositionsApart key) (hj : j ∈ v.joins)
    (hleft : j.kind = .left) (hjbase : j.parentAlias = baseAlias) (hi : i ∈ v.joins)
    (hibase : i.parentAlias = baseAlias) (hinner : i.kind = .inner) :
    orphanRow j.fkColumn (g.identifierColumn o key).name i.fkColumn = some 1 := by
  have hne := h.target_ne_of_inner hapart hj hleft hjbase hi hinner hibase
  exact orphanRow_of_ne (h.fkColumn_ne_of_target_ne hissues hi hj hibase hjbase hne)
    (h.fkColumn_ne_identifier hissues hi hibase)

/-- The row of the base table that refers to a missing two makes it into the view, with the two. -/
theorem exists_orphan_row (h : g.Assembles o key table exposed parents v)
    (hg : build primitives terms = .ok g)
    (hnames : (terms.map fun t => Name.snakeCase t.name).Nodup) (hkey : g.declares key = true)
    (hissues : v.issues = []) (hapart : g.CompositionsApart key) (hj : j ∈ v.joins)
    (hleft : j.kind = .left) (hshows : v.Shows j) :
    ∃ fkColumn, ∃ x ∈ v.rows (g.orphans o key j.target fkColumn), x j.fkColumn = some 2 := by
  have hdeclared := h.declares_target hg hj
  obtain ⟨top, way, htop, htopLeft, hbase, hway, hjway⟩ := h.exists_way_of_shows hj hleft hshows
  have htwo := orphanRow_fkColumn (h.fkColumn_ne_identifier hissues htop hbase)
  have hones : ∀ name,
      constantRow 1 ∈ g.orphans o key j.target top.fkColumn (Name.table name) := fun name =>
    constantRow_one_mem_orphanDatabase
  have htwos : ∀ i ∈ way, MeetsTwos g (g.orphans o key j.target top.fkColumn) v
      (orphanRow top.fkColumn (g.identifierColumn o key).name) way i := by
    intro i hi
    obtain ⟨hmem, hikind, hne, hhangs⟩ := hway i hi
    refine ⟨hmem, hikind, constantRow_two_mem_orphans hg hnames (h.declares_target hg hmem)
      hdeclared hne, hhangs.imp_left ?_⟩
    rintro rfl
    exact ⟨hbase, htwo⟩
  obtain ⟨s, hs, hsbase, hstwos⟩ := h.exists_scope _ way hones
    (fun s hs => exists_row_of_ones (h.exists_view_of_mem_ancestors hs) hones)
    (fun i hi => h.orphanRow_of_inner hissues hapart htop htopLeft hbase hi) htwos
  refine ⟨top.fkColumn, (Select.ofSchema v).project s, ?_, ?_⟩
  · rw [ViewSchema.rows_eq_flatMap, h.baseTable_eq,
      (isTable_of_table_eq_ok h.table_eq_ok).table_eq]
    refine List.mem_flatMap.mpr ⟨_, orphanRow_mem_orphans hg hnames hkey hdeclared
      (h.target_ne_of_shows hj hshows).symm, ?_⟩
    rw [ViewSchema.rowsOf_eq]
    exact List.mem_map_of_mem hs
  · obtain ⟨c, hc, halias⟩ := hshows
    rw [ViewSchema.project_eq hc, halias]
    rcases hjway with rfl | ⟨i, hi, hialias⟩
    · rw [hbase, hsbase, htwo]
    · rw [← hialias, hstwos i hi, constantRow]

theorem canFail_of_left (h : g.Assembles o key table exposed parents v)
    (hg : build primitives terms = .ok g)
    (hnames : (terms.map fun t => Name.snakeCase t.name).Nodup) (hkey : g.declares key = true)
    (hissues : v.issues = []) (hapart : g.CompositionsApart key) (hj : j ∈ v.joins)
    (hleft : j.kind = .left) (hshows : v.Shows j) (rule : String) :
    v.CanFail g o (joinAssertion rule v j).check := by
  obtain ⟨fkColumn, x, hx, htwo⟩ :=
    h.exists_orphan_row hg hnames hkey hissues hapart hj hleft hshows
  refine ⟨ℕ, inferInstance, g.orphans o key j.target fkColumn,
    keyed_orphans hg hnames hkey, ?_⟩
  rw [check_joinAssertion_of_shows hshows, Check.failures_existsIn_pos_iff, (h.labels_eq hj).1,
    h.update_view_table, Function.update_self]
  refine ⟨x, hx, 2, htwo, ?_⟩
  simp [orphans_target, constantRow]

end Assembles

/-- The integrity checks in the script of a view that can fail are those of left joins, and those
that read a table as the view does not show what the join refers to. -/
theorem integrityCheck_canFail_iff {v : ViewSchema} (hg : build primitives terms = .ok g)
    (hnames : (terms.map fun t => Name.snakeCase t.name).Nodup) (hkey : g.declares key = true)
    (hapart : g.CompositionsApart key) (hv : g.view o key = .ok v) (hissues : v.issues = [])
    {generator : Generator} {script : Script} (hscript : generator.viewScript v = .ok script)
    {a : Assertion} (ha : a ∈ script.assertions)
    (hrule : a.rule = "referential_integrity" ∨ a.rule = "inheritance_integrity") :
    ∃ j ∈ v.joins, a = joinAssertion a.rule v j ∧
      (v.CanFail g o a.check ↔ j.kind = .left ∨ ¬ v.Shows j) := by
  obtain ⟨table, exposed, parents, h⟩ := exists_assembles hv
  obtain ⟨j, hj, heq⟩ := Generator.exists_join_of_integrity hscript ha hrule
  refine ⟨j, hj, heq, ?_⟩
  rw [heq]
  constructor
  · intro hfails
    by_contra hnot
    rw [not_or, not_not] at hnot
    refine h.not_canFail hj ?_ hnot.2 a.rule hfails
    cases hkind : j.kind with
    | inner => rfl
    | left => exact absurd hkind hnot.1
  · intro hor
    by_cases hshows : v.Shows j
    · have hleft := hor.resolve_right (not_not.mpr hshows)
      exact h.canFail_of_left hg hnames hkey hissues hapart hj hleft hshows a.rule
    · exact h.canFail_of_not_shows hg hnames hkey hj hshows a.rule

end Graph

/-- A manager has a site by a left join, and is an employee by an inner join. -/
theorem staff_manager_script :
    (staff.view .standard "manager").map (fun v => (v.issues.map Issue.code,
      (standardGenerator.viewScript v).toOption.map Script.rules)) =
    .ok ([], some ["existence", "identifier_not_null", "identifier_unique", "not_null",
      "referential_integrity", "inheritance_integrity"]) := by
  decide +kernel

theorem manager_integrityCheck : ∃ v script a,
    Graph.build (Primitives.ofNames builtInPrimitives) staffTerms = .ok staff ∧
      (staffTerms.map fun t => Name.snakeCase t.name).Nodup ∧ staff.declares "manager" = true ∧
      staff.CompositionsApart "manager" ∧ staff.view .standard "manager" = .ok v ∧
      v.issues = [] ∧ standardGenerator.viewScript v = .ok script ∧ a ∈ script.assertions ∧
      a.rule = "referential_integrity" ∧ ∃ j ∈ v.joins, a = joinAssertion a.rule v j ∧
        (v.CanFail staff .standard a.check ↔ j.kind = .left ∨ ¬ v.Shows j) := by
  obtain ⟨v, hv, hvalues⟩ := exists_of_map_eq_ok staff_manager_script
  obtain ⟨hissues, hscript⟩ := Prod.mk.inj hvalues
  obtain ⟨script, hscript, hrules⟩ := Option.map_eq_some_iff.mp hscript
  have hissues := List.map_eq_nil_iff.mp hissues
  have hscript := eq_ok_of_toOption_eq_some hscript
  obtain ⟨a, ha, hrule⟩ : ∃ a ∈ script.assertions, a.rule = "referential_integrity" := by
    refine List.mem_map.mp (?_ : _ ∈ script.rules)
    rw [hrules]
    simp
  have hnames : (staffTerms.map fun t => Name.snakeCase t.name).Nodup := by decide +kernel
  have hdeclared : staff.declares "manager" = true := by decide +kernel
  have hapart : staff.CompositionsApart "manager" := by
    unfold Graph.CompositionsApart
    decide +kernel
  exact ⟨v, script, a, build_staffTerms, hnames, hdeclared, hapart, hv, hissues, hscript, ha, hrule,
    Graph.integrityCheck_canFail_iff build_staffTerms hnames hdeclared hapart hv hissues hscript ha
      (Or.inl hrule)⟩

/-- A department must have a site, so that its view joins the site by an inner join. -/
theorem staff_department_script :
    (staff.view .standard "department").map (fun v => (v.issues.map Issue.code,
      v.joins.all (fun j => decide (j.kind = .inner) &&
        (v.column? j.fkColumn).any fun c => c.aliasName == j.parentAlias),
      (standardGenerator.viewScript v).toOption.map Script.rules)) =
    .ok ([], true, some ["existence", "identifier_not_null", "identifier_unique", "not_null",
      "referential_integrity"]) := by
  decide +kernel

/-- The check that the site of every department exists cannot fail, whatever the tables hold. -/
theorem department_site_neverFails : ∃ v script a,
    Graph.build (Primitives.ofNames builtInPrimitives) staffTerms = .ok staff ∧
      staff.view .standard "department" = .ok v ∧ v.issues = [] ∧
      standardGenerator.viewScript v = .ok script ∧ a ∈ script.assertions ∧
      a.rule = "referential_integrity" ∧ ¬ v.CanFail staff .standard a.check := by
  obtain ⟨v, hv, hvalues⟩ := exists_of_map_eq_ok staff_department_script
  rw [Prod.mk.injEq, Prod.mk.injEq] at hvalues
  obtain ⟨hissues, hjoins, hscript⟩ := hvalues
  obtain ⟨script, hscript, hrules⟩ := Option.map_eq_some_iff.mp hscript
  have hscript := eq_ok_of_toOption_eq_some hscript
  obtain ⟨a, ha, hrule⟩ : ∃ a ∈ script.assertions, a.rule = "referential_integrity" := by
    refine List.mem_map.mp (?_ : _ ∈ script.rules)
    rw [hrules]
    simp
  refine ⟨v, script, a, build_staffTerms, hv, List.map_eq_nil_iff.mp hissues, hscript, ha, hrule,
    ?_⟩
  obtain ⟨j, hj, heq⟩ := Generator.exists_join_of_integrity hscript ha (Or.inl hrule)
  have hboth := List.all_eq_true.mp hjoins j hj
  rw [Bool.and_eq_true, decide_eq_true_eq, ← ViewSchema.shows_iff] at hboth
  obtain ⟨table, exposed, parents, h⟩ := Graph.exists_assembles hv
  rw [heq]
  exact h.not_canFail hj hboth.1 hboth.2 a.rule

end Glossary
