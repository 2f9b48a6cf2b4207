import Mathlib.Data.List.Basic
import Glossary.Proofs.Fallible
import Glossary.Resolve.Draft

/-!
What a draft holds after columns have been contributed to it: a column of every contributed name,
each name once, and an anomaly whenever two terms contribute one name.
-/

namespace Glossary

open Fallible

/-- An anomaly that reports two terms contributing one column name. -/
def Issue.IsConflict (i : Issue) : Prop :=
  i.code = IssueCode.ambiguousIdentifier.text ∨ i.code = IssueCode.duplicateColumn.text

theorem Occasion.conflict_isConflict (o : Occasion) (kept dropped : Column) :
    (o.conflict kept dropped).IsConflict := by
  unfold Occasion.conflict Issue.IsConflict
  cases isAmbiguous kept dropped <;> simp

namespace Draft

variable {α : Type} {column : α → Column} {o : Occasion} {d d' d'' : Draft α}

/-- The three ways in which a contributed column is taken: it opens its name, it repeats what the
draft has, or it gives way to another term. -/
theorem add_cases_find? {a : α} (h : d.add column o a = .ok d') :
    ((d.columns.find? fun k => (column k).name == (column a).name) = none ∧
        d' = { d with columns := d.columns ++ [a] }) ∨
      ∃ k, (d.columns.find? fun k => (column k).name == (column a).name) = some k ∧
        (((column k).term = (column a).term ∧ d' = d) ∨
          ((column k).term ≠ (column a).term ∧
            d' = { d with issues := d.issues ++ [o.conflict (column k) (column a)] })) := by
  rw [Draft.add] at h
  split at h
  · rename_i hnone
    exact Or.inl ⟨hnone, (Except.ok.inj h).symm⟩
  · rename_i k hk
    refine Or.inr ⟨k, hk, ?_⟩
    simp only at h
    split at h
    · rename_i hterm
      exact Or.inl ⟨hterm, (Except.ok.inj h).symm⟩
    · rename_i hterm
      split at h
      · cases h
      · exact Or.inr ⟨hterm, (Except.ok.inj h).symm⟩

theorem add_cases {a : α} (h : d.add column o a = .ok d') :
    (((∀ k ∈ d.columns, (column k).name ≠ (column a).name) ∧
        d' = { d with columns := d.columns ++ [a] }) ∨
      ∃ k ∈ d.columns, (column k).name = (column a).name ∧
        (((column k).term = (column a).term ∧ d' = d) ∨
          d' = { d with issues := d.issues ++ [o.conflict (column k) (column a)] })) := by
  rcases add_cases_find? h with ⟨hnone, rfl⟩ | ⟨k, hk, htaken⟩
  · refine Or.inl ⟨fun k hk => ?_, rfl⟩
    simpa using List.find?_eq_none.mp hnone k hk
  · refine Or.inr ⟨k, List.mem_of_find?_eq_some hk, by simpa using List.find?_some hk, ?_⟩
    exact htaken.imp_right And.right

/-- How a draft grows when `as` are contributed to it. -/
structure Extends (column : α → Column) (d d' : Draft α) (as : List α) : Prop where
  columns_kept : d.columns <+: d'.columns
  issues_kept : d.issues <+: d'.issues
  contributed : ∀ a ∈ d'.columns, a ∈ d.columns ∨ a ∈ as
  named : ∀ a ∈ as, ∃ k ∈ d'.columns, (column k).name = (column a).name ∧
    (d'.issues = [] → (column k).term = (column a).term)
  nodup : (d.columns.map fun a => (column a).name).Nodup →
    (d'.columns.map fun a => (column a).name).Nodup
  conflicts : ∀ i ∈ d'.issues, i ∈ d.issues ∨ i.IsConflict

theorem Extends.refl (d : Draft α) : Extends column d d [] where
  columns_kept := List.prefix_refl _
  issues_kept := List.prefix_refl _
  contributed := fun a ha => Or.inl ha
  named := by simp
  nodup := id
  conflicts := fun i hi => Or.inl hi

theorem Extends.trans {as bs : List α} (h : Extends column d d' as)
    (h' : Extends column d' d'' bs) : Extends column d d'' (as ++ bs) where
  columns_kept := h.columns_kept.trans h'.columns_kept
  issues_kept := h.issues_kept.trans h'.issues_kept
  contributed := by
    intro a ha
    rcases h'.contributed a ha with ha | ha
    · rcases h.contributed a ha with ha | ha
      · exact Or.inl ha
      · exact Or.inr (List.mem_append_left _ ha)
    · exact Or.inr (List.mem_append_right _ ha)
  named := by
    intro a ha
    rcases List.mem_append.mp ha with ha | ha
    · obtain ⟨k, hk, hname, hterm⟩ := h.named a ha
      refine ⟨k, h'.columns_kept.subset hk, hname, fun hempty => hterm ?_⟩
      exact List.prefix_nil.mp (hempty ▸ h'.issues_kept)
    · exact h'.named a ha
  nodup := h'.nodup ∘ h.nodup
  conflicts := by
    intro i hi
    rcases h'.conflicts i hi with hi | hi
    · exact h.conflicts i hi
    · exact Or.inr hi

theorem add_extends {a : α} (h : d.add column o a = .ok d') : Extends column d d' [a] := by
  rcases add_cases h with ⟨hfresh, rfl⟩ | ⟨k, hk, hname, ⟨hterm, rfl⟩ | rfl⟩
  · constructor
    case nodup =>
      intro hnodup
      rw [List.map_append, List.nodup_append]
      refine ⟨hnodup, by simp, ?_⟩
      simpa using hfresh
    all_goals simp +contextual
  · constructor
    case named => simpa using ⟨k, hk, hname, fun _ => hterm⟩
    all_goals simp +contextual
  · constructor
    case named => simpa using ⟨k, hk, hname⟩
    case conflicts =>
      intro i hi
      rcases List.mem_append.mp hi with hi | hi
      · exact Or.inl hi
      · rw [List.mem_singleton.mp hi]
        exact Or.inr (o.conflict_isConflict _ _)
    all_goals simp +contextual

theorem addAll_extends {as : List α} (h : d.addAll column o as = .ok d') :
    Extends column d d' as := by
  unfold addAll at h
  induction as generalizing d with
  | nil =>
      obtain rfl := Except.ok.inj h
      exact Extends.refl d
  | cons a as ih =>
      obtain ⟨next, hnext, hrest⟩ := foldlM_cons_eq_ok_iff.mp h
      exact (add_extends hnext).trans (ih hrest)

/-- A contributed column is there with its term, or there is an anomaly that names it. -/
def Accounts (column : α → Column) (o : Occasion) (d : Draft α) (a : α) : Prop :=
  ∃ k ∈ d.columns, (column k).name = (column a).name ∧ ((column k).term = (column a).term ∨
    ∃ i ∈ d.issues, i.location = o.label ++ "." ++ (column a).name)

theorem add_accounts {a : α} (h : d.add column o a = .ok d') : Accounts column o d' a := by
  rcases add_cases h with ⟨-, rfl⟩ | ⟨k, hk, hname, ⟨hterm, rfl⟩ | rfl⟩
  · exact ⟨a, by simp, rfl, Or.inl rfl⟩
  · exact ⟨k, hk, hname, Or.inl hterm⟩
  · refine ⟨k, hk, hname, Or.inr ⟨o.conflict (column k) (column a), by simp, ?_⟩⟩
    exact congrArg (o.label ++ "." ++ ·) hname

theorem addAll_accounts {as : List α} (h : d.addAll column o as = .ok d') {a : α} (ha : a ∈ as) :
    Accounts column o d' a := by
  induction as generalizing d with
  | nil => cases ha
  | cons b as ih =>
      obtain ⟨next, hnext, hrest⟩ := foldlM_cons_eq_ok_iff.mp h
      rcases List.mem_cons.mp ha with rfl | ha
      · have hextends := addAll_extends hrest
        obtain ⟨k, hk, hname, hterm⟩ := add_accounts hnext
        refine ⟨k, hextends.columns_kept.subset hk, hname, hterm.imp_right ?_⟩
        rintro ⟨i, hi, hlocation⟩
        exact ⟨i, hextends.issues_kept.subset hi, hlocation⟩
      · exact ih hrest ha

theorem add_find? {a : α} (h : d.add column o a = .ok d') (name : String) :
    (d'.columns.find? fun k => (column k).name == name) =
      (d.columns ++ [a]).find? fun k => (column k).name == name := by
  rcases add_cases h with ⟨-, rfl⟩ | ⟨k, hk, hname, hkept⟩
  · rfl
  have hcolumns : d'.columns = d.columns := by
    rcases hkept with ⟨-, rfl⟩ | rfl
    · rfl
    · rfl
  rw [hcolumns, List.find?_append]
  by_cases heq : (column a).name = name
  · -- the name is taken already, so the search never comes to the new column
    have hsome : (d.columns.find? fun k => (column k).name == name).isSome = true :=
      List.find?_isSome.mpr ⟨k, hk, beq_iff_eq.mpr (hname.trans heq)⟩
    rw [Option.or_of_isSome hsome]
  · have hnone : ([a].find? fun k => (column k).name == name) = none := by simpa using heq
    rw [hnone, Option.or_none]

/-- The first column of a name keeps it. -/
theorem addAll_find? {as : List α} (h : d.addAll column o as = .ok d') (name : String) :
    (d'.columns.find? fun k => (column k).name == name) =
      (d.columns ++ as).find? fun k => (column k).name == name := by
  induction as generalizing d with
  | nil =>
      obtain rfl := Except.ok.inj h
      rw [List.append_nil]
  | cons a as ih =>
      obtain ⟨next, hnext, hrest⟩ := foldlM_cons_eq_ok_iff.mp h
      rw [ih hrest, List.find?_append, add_find? hnext, ← List.find?_append, List.append_assoc,
        List.singleton_append]

theorem addAll_eq_ok_of_nodup {as : List α}
    (h : ((d.columns ++ as).map fun a => (column a).name).Nodup) :
    d.addAll column o as = .ok { d with columns := d.columns ++ as } := by
  induction as generalizing d with
  | nil => simp [addAll, pure, Except.pure]
  | cons a as ih =>
      have hfresh : ∀ k ∈ d.columns, (column k).name ≠ (column a).name := by
        rw [List.map_append, List.map_cons, List.nodup_append] at h
        intro k hk
        exact h.2.2 _ (List.mem_map_of_mem hk) _ List.mem_cons_self
      have hadd : d.add column o a = .ok { d with columns := d.columns ++ [a] } := by
        have hnone : (d.columns.find? fun k => (column k).name == (column a).name) = none :=
          List.find?_eq_none.mpr fun k hk => by simpa using hfresh k hk
        rw [add, hnone]
      have hrest := ih (d := { d with columns := d.columns ++ [a] }) (by simpa using h)
      simp only [List.append_assoc, List.singleton_append] at hrest
      exact foldlM_cons_eq_ok_iff.mpr ⟨_, hadd, hrest⟩

theorem exists_addAll_eq_ok (column : α → Column) (ho : o.strict = false) (d : Draft α)
    (as : List α) :
    ∃ d', d.addAll column o as = .ok d' := by
  refine foldlM_eq_ok_of_forall (fun d a => ?_) d as
  rw [Draft.add]
  split
  · exact ⟨_, rfl⟩
  · simp only [ho, Bool.and_false, Bool.false_eq_true, if_false]
    split
    · exact ⟨_, rfl⟩
    · exact ⟨_, rfl⟩

end Draft

end Glossary
