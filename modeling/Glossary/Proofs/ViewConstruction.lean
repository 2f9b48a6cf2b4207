import Glossary.Proofs.Resolvability

/-!
A view that can be put together from a table, from what its things expose and from views of its
parents is the view that the construction comes to. With what was shown of its assembly, this tells
exactly which views there are.
-/

namespace Glossary

open Fallible

namespace ViewDraft

variable {o : Occasion} {v v' : ViewDraft}

theorem addColumns_of_addAll {columns : List ViewColumn} {d : Draft ViewColumn}
    (h : v.toDraft.addAll ViewColumn.toColumn o columns = .ok d) :
    v.addColumns o columns = .ok { v with toDraft := d } :=
  bind_eq_ok_iff.mpr ⟨d, h, rfl⟩

/-- Columns that can be contributed all at once can be contributed attachment by attachment. -/
theorem exists_attachAll_eq_ok {as : List Attachment} {d : Draft ViewColumn}
    (h : v.toDraft.addAll ViewColumn.toColumn o (as.flatMap Attachment.columns) = .ok d) :
    ∃ v', v.attachAll o as = .ok v' ∧ v'.toDraft = d := by
  induction as generalizing v with
  | nil => exact ⟨v, rfl, Except.ok.inj h⟩
  | cons a as ih =>
      rw [List.flatMap_cons] at h
      obtain ⟨first, hfirst, hrest⟩ := foldlM_append_eq_ok_iff.mp h
      have hattach : v.attach o a = .ok ⟨first, v.joins ++ [a.join],
          v.ancestors ++ a.embedded.toList⟩ := addColumns_of_addAll hfirst
      obtain ⟨v', hv', hdraft⟩ := ih (v := ⟨first, _, _⟩) hrest
      exact ⟨v', foldlM_cons_eq_ok_iff.mpr ⟨_, hattach, hv'⟩, hdraft⟩

end ViewDraft

namespace Graph

variable {g : Graph} {options : ResolutionOptions} {o : Occasion} {key : Key}
  {w : Key → Except ResolutionError ViewSchema} {v v' : ViewDraft}

theorem joinTable_of_attach {hop : Hop} {table : TableSchema}
    (htable : g.table options hop.target = .ok table)
    (h : v.attach o (g.tableAttachment v.joins.length hop table) = .ok v') :
    joinTable g ⟨g.table options, w⟩ o v hop = .ok v' := by
  refine bind_eq_ok_iff.mpr ⟨table, htable, ?_⟩
  simp only [ViewDraft.attach, tableAttachment, Option.toList_none, List.append_nil] at h
  exact h

theorem joinTables_of_attachAll {hops : List Hop} {as : List Attachment}
    (hjoined : g.TablesJoined options v.joins.length hops as)
    (h : v.attachAll o as = .ok v') :
    joinTables g ⟨g.table options, w⟩ o v hops = .ok (v', as.map Attachment.standing) := by
  generalize hn : v.joins.length = n at hjoined
  induction hjoined generalizing v with
  | nil => exact congrArg (fun u => Except.ok (u, [])) (Except.ok.inj h)
  | cons htable _ ih =>
      subst hn
      obtain ⟨next, hattach, hrest⟩ := foldlM_cons_eq_ok_iff.mp h
      refine bind_eq_ok_iff.mpr ⟨next, joinTable_of_attach htable hattach, ?_⟩
      exact bind_eq_ok_iff.mpr ⟨_, ih hrest (attach_joins_length hattach), rfl⟩

/-- A hop may follow the path: all its terms are declared, and the bound is not reached. -/
structure MayFollow (g : Graph) (steps : Nat) (path : List Key) : Prop where
  nodup : path.Nodup
  declares : ∀ k ∈ path, g.declares k = true
  size_lt : g.size < steps + path.length

theorem MayFollow.exists_steps {steps : Nat} {path : List Key} (h : g.MayFollow steps path) :
    ∃ rest, steps = rest + 1 := by
  have hle := length_le_size h.nodup h.declares
  have hlt := h.size_lt
  exact ⟨steps - 1, by omega⟩

theorem MayFollow.append {steps : Nat} {path : List Key} {target : Key}
    (h : g.MayFollow (steps + 1) path) (hfresh : target ∉ path)
    (hentity : g.isEntity target = true) : g.MayFollow steps (path ++ [target]) where
  nodup := nodup_append_singleton h.nodup hfresh
  declares := List.forall_mem_append.mpr
    ⟨h.declares, List.forall_mem_singleton.mpr (declares_of_isEntity hentity)⟩
  size_lt := by
    have hlt := h.size_lt
    simp
    omega

theorem foldlM_follow_of_exposed {path : List Key} {n : Nat} {hops : List Hop}
    {as : List Attachment} (hexposed : g.Exposed options path n hops as) {steps : Nat}
    (hpath : g.MayFollow steps path) (hentity : ∀ hop ∈ hops, g.isEntity hop.target = true)
    (hn : v.joins.length = n) (h : v.attachAll o as = .ok v') :
    hops.foldlM (follow g options ⟨g.table options, w⟩ o steps path) v = .ok v' := by
  induction hexposed generalizing steps v v' with
  | nil => exact h
  | @cons path n hop rest tables below after hfresh htables _ _ ihBelow ihAfter =>
      subst hn
      obtain ⟨arrived, hbefore, hafter⟩ := foldlM_append_eq_ok_iff.mp h
      obtain ⟨joined, harrival, hbelow⟩ := foldlM_append_eq_ok_iff.mp hbefore
      have hlength := attachAll_joins_length harrival
      have honward : ∀ next ∈ g.onwardHops options hop tables, g.isEntity next.target = true :=
        fun next hnext => ((exists_mem_onwardHops_iff htables).mp ⟨next, hnext, rfl⟩).isEntity
      obtain ⟨rest, rfl⟩ := hpath.exists_steps
      refine foldlM_cons_eq_ok_iff.mpr ⟨arrived, ?_, ?_⟩
      · rw [follow, if_neg hfresh]
        refine bind_eq_ok_iff.mpr ⟨_, joinTables_of_attachAll htables harrival, ?_⟩
        simp only [List.flatMap_map]
        exact ihBelow (hpath.append hfresh (hentity hop List.mem_cons_self)) honward hlength hbelow
      · apply ihAfter hpath ?_ ?_ hafter
        · exact fun hop' hmem => hentity hop' (List.mem_cons_of_mem hop hmem)
        · rw [attachAll_joins_length hbelow, hlength]

theorem joinParent_of_attach {parent : Key} {ancestor : ViewSchema} (hlabel : o.label = g.label key)
    (hancestor : w parent = .ok ancestor)
    (h : v.attach o (g.parentAttachment options key v.joins.length parent ancestor) = .ok v') :
    joinParent g options ⟨g.table options, w⟩ o key v parent = .ok v' := by
  refine bind_eq_ok_iff.mpr ⟨ancestor, hancestor, ?_⟩
  rw [← h, ViewDraft.attach]
  cases hbare : ancestor.joins.isEmpty
  all_goals
    simp only [parentAttachment, hbare, hlabel, Option.toList_none, Option.toList_some,
      List.append_nil, Bool.false_eq_true, if_true, if_false]
    rfl

theorem foldlM_joinParent_of_parentsJoined {n : Nat} {parents : List Key} {as : List Attachment}
    (hjoined : g.ParentsJoined options key n parents as) (hlabel : o.label = g.label key)
    (hn : v.joins.length = n) (h : v.attachAll o as = .ok v') :
    parents.foldlM (joinParent g options ⟨g.table options, g.view options⟩ o key) v = .ok v' := by
  induction hjoined generalizing v with
  | nil => exact h
  | cons hancestor _ ih =>
      subst hn
      obtain ⟨next, hattach, hrest⟩ := foldlM_cons_eq_ok_iff.mp h
      refine foldlM_cons_eq_ok_iff.mpr ⟨next, joinParent_of_attach hlabel hancestor hattach, ?_⟩
      exact ih (attach_joins_length hattach) hrest

theorem foldlM_firstHops_of_exposed {as : List Attachment}
    (hexposed : g.Exposed options [key] v.joins.length (g.firstHops options key) as)
    (h : v.attachAll o as = .ok v') :
    (g.firstHops options key).foldlM
      (follow g options ⟨g.table options, w⟩ o g.stepBound [key]) v = .ok v' := by
  by_cases hdeclared : g.declares key = true
  · refine foldlM_follow_of_exposed hexposed ⟨List.nodup_singleton key, ?_, ?_⟩ ?_ rfl h
    · exact List.forall_mem_singleton.mpr hdeclared
    · simp only [stepBound, List.length_singleton]
      omega
    · intro hop hhop
      exact (has_iff_exists_mem_firstHops.mpr ⟨hop, hhop, rfl⟩).isEntity
  · -- a term that is not declared has nothing
    have hnone : g.firstHops options key = [] :=
      List.eq_nil_iff_forall_not_mem.mpr fun hop hhop =>
        hdeclared (has_iff_exists_mem_firstHops.mpr ⟨hop, hhop, rfl⟩).declares
    rw [hnone] at hexposed ⊢
    cases hexposed
    exact h

/-- What is assembled is the view. -/
theorem Assembles.view_eq_ok {table : TableSchema} {exposed parents : List Attachment}
    {s : ViewSchema} (h : g.Assembles options key table exposed parents s) :
    g.view options key = .ok s := by
  set o : Occasion := ⟨.logical, table.label, options.strict⟩
  obtain ⟨d, hown, hattached⟩ := foldlM_append_eq_ok_iff.mp h.columns_of
  obtain ⟨last, hlast, hdraft⟩ := ViewDraft.exists_attachAll_eq_ok
    (v := ⟨d, [], []⟩) (o := o) hattached
  obtain ⟨-, hjoins, hancestors⟩ := ViewDraft.attachAll_eq_ok hlast
  obtain ⟨middle, hexposed, hparents⟩ := foldlM_append_eq_ok_iff.mp hlast
  have hlabel := (isTable_of_table_eq_ok h.table_eq_ok).label_eq
  rw [view_eq_viewFrom]
  refine bind_eq_ok_iff.mpr ⟨table, h.table_eq_ok, ?_⟩
  refine bind_eq_ok_iff.mpr ⟨⟨d, [], []⟩, ViewDraft.addColumns_of_addAll hown, ?_⟩
  refine bind_eq_ok_iff.mpr ⟨middle, foldlM_firstHops_of_exposed h.exposed_of hexposed, ?_⟩
  refine bind_eq_ok_iff.mpr ⟨last, ?_, ?_⟩
  · apply foldlM_joinParent_of_parentsJoined h.parents_of hlabel ?_ hparents
    simpa using attachAll_joins_length hexposed
  · simp only [List.nil_append, ← h.joins_eq, ← h.ancestors_eq] at hjoins hancestors
    rw [hjoins, hancestors, hdraft, ← h.term_eq, ← h.label_eq, ← h.baseTable_eq, ← h.baseAlias_eq]
    rw [h.label_eq, ← h.view_eq, ← h.label_eq]
    -- views hold views, so a view is not its fields put together by definition
    cases s
    rfl

/-- A term has the views that can be assembled for it. -/
theorem view_eq_ok_iff {s : ViewSchema} : g.view options key = .ok s ↔
    ∃ table exposed parents, g.Assembles options key table exposed parents s := by
  constructor
  · exact exists_assembles
  · rintro ⟨table, exposed, parents, h⟩
    exact h.view_eq_ok

end Graph

end Glossary
