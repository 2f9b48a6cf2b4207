import Glossary.Proofs.Fallible
import Glossary.Sql.Generator

/-!
What the scripts of tables and views hold.
-/

namespace Glossary.Sql

open Fallible

/-- The script checks that the values of a column exist in the column of that name of a table. -/
def Script.ChecksReference (script : Script) (name table : String) : Prop :=
  ∃ a ∈ script.assertions, a.rule = "referential_integrity" ∧
    a.check = .existsIn script.object name table name

theorem RangeTable.exists_eq_of_mem {ranges : RangeTable} {object : String}
    {columns : List Column} {as : List Assertion}
    (h : ranges.assertions object columns = .ok as) {a : Assertion} (ha : a ∈ as) :
    (∃ name, a.rule = "range_" ++ name) ∧
      ∃ c ∈ columns, ∃ predicate, a.check = .noneSatisfies object c.name predicate := by
  obtain ⟨found, hfound, h⟩ := bind_eq_ok_iff.mp h
  obtain rfl := Except.ok.inj h
  obtain ⟨group, hgroup, ha⟩ := List.mem_flatten.mp ha
  obtain ⟨c, hmem, hc⟩ := exists_of_mem_mapM hfound hgroup
  obtain ⟨rule, -, hrule⟩ := exists_of_mem_mapM hc ha
  rw [RangeTable.assertion] at hrule
  split at hrule
  · cases hrule
  · rename_i predicate _
    obtain rfl := Except.ok.inj hrule
    exact ⟨⟨rule.name, rfl⟩, c, hmem, predicate, rfl⟩

theorem range_append_ne (name : String) : "range_" ++ name ≠ "referential_integrity" := by
  intro h
  have hlist := congrArg String.toList h
  simp at hlist

theorem inheritance_ne_range_append (name : String) :
    "range_" ++ name ≠ "inheritance_integrity" := by
  intro h
  have hlist := congrArg String.toList h
  simp at hlist

/-- The assertion is about the object itself: its rows, its identifier, its required columns or the
values of its columns. -/
structure Assertion.IsAbout (object identifier : String) (required columns : List String)
    (a : Assertion) : Prop where
  not_reference : a.rule ≠ "referential_integrity"
  not_inheritance : a.rule ≠ "inheritance_integrity"
  check_eq : a.check = .hasRows object ∨ a.check = .unique object identifier ∨
    (∃ name ∈ identifier :: required, a.check = .notNull object name) ∨
    ∃ name ∈ columns, ∃ predicate, a.check = .noneSatisfies object name predicate

/-- The script of the object holds these integrity assertions in one piece, and all others are about
the object itself. -/
structure Script.Consists (script : Script) (object identifier : String)
    (required columns : List String) (integrity : List Assertion) : Prop where
  object_eq : script.object = object
  assertions_eq : ∃ before after, script.assertions = before ++ integrity ++ after ∧
    ∀ a ∈ before ++ after, a.IsAbout object identifier required columns

section Parts

variable {ranges : RangeTable} {script : Script} {object identifier : String}
  {required columns : List String} {integrity : List Assertion} {a : Assertion}

theorem isAbout_of_mem_identifierAssertions (ha : a ∈ identifierAssertions object identifier) :
    a.IsAbout object identifier required columns := by
  simp only [identifierAssertions, List.mem_cons, List.not_mem_nil, or_false] at ha
  rcases ha with rfl | rfl | rfl
  · exact ⟨by simp, by simp, Or.inl rfl⟩
  · exact ⟨by simp, by simp, Or.inr (Or.inr (Or.inl ⟨_, List.mem_cons_self, rfl⟩))⟩
  · exact ⟨by simp, by simp, Or.inr (Or.inl rfl)⟩

theorem isAbout_of_mem_ranges {columns : List Column} {found : List Assertion}
    (h : ranges.assertions object columns = .ok found) (ha : a ∈ found) :
    a.IsAbout object identifier required (columns.map Column.name) := by
  obtain ⟨⟨name, hrule⟩, c, hc, predicate, hcheck⟩ := RangeTable.exists_eq_of_mem h ha
  constructor
  case not_reference => exact hrule ▸ range_append_ne name
  case not_inheritance => exact hrule ▸ inheritance_ne_range_append name
  case check_eq => exact Or.inr (Or.inr (Or.inr ⟨_, List.mem_map_of_mem hc, predicate, hcheck⟩))

theorem isAbout_of_notNull {name : String} (hname : name ∈ required) (hrule : a.rule = "not_null")
    (hcheck : a.check = .notNull object name) : a.IsAbout object identifier required columns where
  not_reference := by simp [hrule]
  not_inheritance := by simp [hrule]
  check_eq := Or.inr (Or.inr (Or.inl ⟨name, List.mem_cons_of_mem _ hname, hcheck⟩))

theorem Script.consists_of_eq {own nulls references inherited found : List Assertion}
    (hassertions : script.assertions = own ++ nulls ++ references ++ inherited ++ found)
    (hothers : ∀ a ∈ own ++ nulls ++ found,
      a.IsAbout script.object identifier required columns) :
    script.Consists script.object identifier required columns (references ++ inherited) :=
  ⟨rfl, own ++ nulls, found, by rw [hassertions, List.append_assoc (own ++ nulls)], hothers⟩

theorem Script.consists_ofTable {s : TableSchema} (h : Script.ofTable ranges s = .ok script) :
    ∃ identifier rest, s.columns = identifier :: rest ∧
      script.Consists s.table identifier.name ((rest.filter Column.required).map Column.name)
        s.columnNames
        ((rest.filter fun c => c.role == .reference).map
            (columnAssertion "referential_integrity" s) ++
          (rest.filter fun c => c.role == .inheritedIdentifier).map
            (columnAssertion "inheritance_integrity" s)) := by
  unfold Script.ofTable at h
  split at h
  · cases h
  · rename_i identifier rest hcons
    obtain ⟨found, hfound, h⟩ := bind_eq_ok_iff.mp h
    obtain rfl := Except.ok.inj h
    refine ⟨identifier, rest, hcons, Script.consists_of_eq rfl ?_⟩
    intro a ha
    rcases List.mem_append.mp ha with ha | ha
    · rcases List.mem_append.mp ha with ha | ha
      · exact isAbout_of_mem_identifierAssertions ha
      · obtain ⟨c, hc, rfl⟩ := List.mem_map.mp ha
        exact isAbout_of_notNull (List.mem_map_of_mem hc) rfl rfl
    · exact isAbout_of_mem_ranges hfound ha

theorem Script.consists_ofView {s : ViewSchema} (h : Script.ofView ranges s = .ok script) :
    ∃ identifier rest, s.columns = identifier :: rest ∧
      script.Consists s.view identifier.name
        ((rest.filter fun c => c.relation == some .requires && c.required).map fun c => c.name)
        s.columnNames
        (s.referenceJoins.map (joinAssertion "referential_integrity" s) ++
          s.inheritanceJoins.map (joinAssertion "inheritance_integrity" s)) := by
  unfold Script.ofView at h
  split at h
  · cases h
  · rename_i identifier rest hcons
    obtain ⟨found, hfound, h⟩ := bind_eq_ok_iff.mp h
    obtain rfl := Except.ok.inj h
    refine ⟨identifier, rest, hcons, Script.consists_of_eq rfl ?_⟩
    intro a ha
    rcases List.mem_append.mp ha with ha | ha
    · rcases List.mem_append.mp ha with ha | ha
      · exact isAbout_of_mem_identifierAssertions ha
      · obtain ⟨c, hc, rfl⟩ := List.mem_map.mp ha
        exact isAbout_of_notNull (List.mem_map_of_mem hc) rfl rfl
    · have hnames : s.columnNames = (s.columns.map ViewColumn.toColumn).map Column.name := by
        rw [List.map_map]
        rfl
      rw [hnames]
      exact isAbout_of_mem_ranges hfound ha

theorem Script.Consists.mem_or_isAbout
    (h : script.Consists object identifier required columns integrity)
    (ha : a ∈ script.assertions) :
    a ∈ integrity ∨ a.IsAbout object identifier required columns := by
  obtain ⟨before, after, hsplit, hothers⟩ := h.assertions_eq
  rw [hsplit, List.append_assoc, List.mem_append, List.mem_append] at ha
  rcases ha with ha | ha | ha
  · exact Or.inr (hothers a (List.mem_append_left after ha))
  · exact Or.inl ha
  · exact Or.inr (hothers a (List.mem_append_right before ha))

theorem Script.Consists.mem_iff (h : script.Consists object identifier required columns integrity)
    (hrule : a.rule = "referential_integrity" ∨ a.rule = "inheritance_integrity") :
    a ∈ script.assertions ↔ a ∈ integrity := by
  constructor
  · intro ha
    refine (h.mem_or_isAbout ha).resolve_right fun habout => ?_
    exact hrule.elim habout.not_reference habout.not_inheritance
  · intro ha
    obtain ⟨before, after, hsplit, -⟩ := h.assertions_eq
    simp [hsplit, ha]

end Parts

/-- The reference checks of a script are those of the columns that refer to other terms. -/
theorem Script.mem_references_iff {ranges : RangeTable} {s : TableSchema} {script : Script}
    (h : Script.ofTable ranges s = .ok script) {a : Assertion}
    (hrule : a.rule = "referential_integrity") :
    a ∈ script.assertions ↔ ∃ c ∈ s.columns.tail, c.role = .reference ∧
      a = columnAssertion "referential_integrity" s c := by
  obtain ⟨identifier, rest, hcons, hconsists⟩ := Script.consists_ofTable h
  rw [hconsists.mem_iff (Or.inl hrule), hcons, List.tail_cons]
  simp only [List.mem_append, List.mem_map, List.mem_filter, beq_iff_eq]
  constructor
  · rintro (⟨c, ⟨hc, hrole⟩, rfl⟩ | ⟨c, -, rfl⟩)
    · exact ⟨c, hc, hrole, rfl⟩
    · simp [columnAssertion] at hrule
  · rintro ⟨c, hc, hrole, rfl⟩
    exact Or.inl ⟨c, ⟨hc, hrole⟩, rfl⟩

theorem Script.header_eq {ranges : RangeTable} {s : TableSchema} {script : Script}
    (h : Script.ofTable ranges s = .ok script) :
    script.object = s.table ∧ script.layer = .physical ∧ script.term = s.label := by
  unfold Script.ofTable at h
  split at h
  · cases h
  · obtain ⟨rangeAssertions, -, h⟩ := bind_eq_ok_iff.mp h
    obtain rfl := Except.ok.inj h
    exact ⟨rfl, rfl, rfl⟩

theorem Script.object_eq {ranges : RangeTable} {s : TableSchema} {script : Script}
    (h : Script.ofTable ranges s = .ok script) : script.object = s.table :=
  (Script.header_eq h).1

/-- A null check of the script of a view is about its identifier or about a required column. -/
theorem Script.exists_column_of_notNull {ranges : RangeTable} {s : ViewSchema} {script : Script}
    (h : Script.ofView ranges s = .ok script) {a : Assertion} (ha : a ∈ script.assertions)
    {object column : String} (hcheck : a.check = .notNull object column) :
    object = s.view ∧
      ∃ c ∈ s.columns, c.name = column ∧ (s.columns.head? = some c ∨ c.required = true) := by
  obtain ⟨identifier, rest, hcons, hconsists⟩ := Script.consists_ofView h
  rw [hcons]
  rcases hconsists.mem_or_isAbout ha with ha | habout
  · simp only [List.mem_append, List.mem_map] at ha
    rcases ha with ⟨j, -, rfl⟩ | ⟨j, -, rfl⟩
    · cases hcheck
    · cases hcheck
  · have habout := habout.check_eq
    rw [hcheck] at habout
    rcases habout with heq | heq | ⟨name, hname, heq⟩ | ⟨name, -, predicate, heq⟩
    · cases heq
    · cases heq
    · obtain ⟨rfl, rfl⟩ := Check.notNull.inj heq
      refine ⟨rfl, ?_⟩
      rcases List.mem_cons.mp hname with rfl | hname
      · exact ⟨identifier, List.mem_cons_self, rfl, Or.inl rfl⟩
      · obtain ⟨c, hc, rfl⟩ := List.mem_map.mp hname
        obtain ⟨hc, hrequired⟩ := List.mem_filter.mp hc
        exact ⟨c, List.mem_cons_of_mem identifier hc, rfl,
          Or.inr (Bool.and_eq_true_iff.mp hrequired).2⟩
    · cases heq

theorem distinctEdges_subset (seen : List (Key × Key × Relation)) (js : List Join) :
    ViewSchema.distinctEdges seen js ⊆ js := by
  induction js generalizing seen with
  | nil => exact List.Subset.refl _
  | cons j js ih =>
      rw [ViewSchema.distinctEdges]
      split
      · exact List.subset_cons_of_subset j (ih seen)
      · exact List.cons_subset_cons j (ih _)

/-- The integrity checks of the script of a view are about its joins. -/
theorem Generator.exists_join_of_integrity {generator : Generator} {s : ViewSchema}
    {script : Script} (h : generator.viewScript s = .ok script) {a : Assertion}
    (ha : a ∈ script.assertions)
    (hrule : a.rule = "referential_integrity" ∨ a.rule = "inheritance_integrity") :
    ∃ j ∈ s.joins, a = joinAssertion a.rule s j := by
  obtain ⟨-, -, h⟩ := bind_eq_ok_iff.mp h
  obtain ⟨-, -, h⟩ := bind_eq_ok_iff.mp h
  obtain ⟨identifier, rest, -, hconsists⟩ := Script.consists_ofView h
  rw [hconsists.mem_iff hrule] at ha
  simp only [List.mem_append, List.mem_map] at ha
  rcases ha with ⟨j, hj, rfl⟩ | ⟨j, hj, rfl⟩
  · exact ⟨j, List.mem_of_mem_filter (distinctEdges_subset _ _ hj), rfl⟩
  · exact ⟨j, List.mem_of_mem_filter (distinctEdges_subset _ _ hj), rfl⟩

end Glossary.Sql
