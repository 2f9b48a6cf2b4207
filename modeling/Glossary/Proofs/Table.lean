import Glossary.Proofs.Ancestors
import Glossary.Proofs.Draft
import Glossary.Resolve.Table

/-!
The table of a term holds its identifier first and then a column for the identifier of every
ancestor and of everything that the term has. A term without a table reaches a cycle of `is a`
statements, unless an ambiguity is an error.
-/

namespace Glossary

open Fallible

theorem TableSchema.column?_eq_some {t : TableSchema} (hnodup : t.columnNames.Nodup) {c : Column}
    (hc : c ∈ t.columns) : t.column? c.name = some c := by
  unfold column?
  cases hfind : t.columns.find? fun k => k.name == c.name with
  | none =>
      have hne := List.find?_eq_none.mp hfind c hc
      simp at hne
  | some k =>
      have hname : k.name = c.name := by simpa using List.find?_some hfind
      rw [List.inj_on_of_nodup_map hnodup (List.mem_of_find?_eq_some hfind) hc hname]

namespace Graph

variable {g : Graph} {o : ResolutionOptions} {key target : Key} {t : TableSchema}

/-- The table of `key` is given a column for the identifier of `target`. -/
def StoresIdentifier (g : Graph) (o : ResolutionOptions) (key target : Key) : Prop :=
  ∃ c ∈ g.contributions o key, c.name = (g.identifierColumn o target).name ∧ c.term = target

theorem storesIdentifier_self (g : Graph) (o : ResolutionOptions) (key : Key) :
    g.StoresIdentifier o key key :=
  ⟨g.identifierColumn o key, List.mem_cons_self, rfl, rfl⟩

theorem storesIdentifier_of_mem_ancestors (o : ResolutionOptions)
    (h : target ∈ g.ancestors key) : g.StoresIdentifier o key target := by
  refine ⟨g.inheritedColumn o target, ?_, rfl, rfl⟩
  exact List.mem_cons_of_mem _ (List.mem_append_left _ (List.mem_map_of_mem h))

theorem storesIdentifier_of_inherits (o : ResolutionOptions) (h : g.Inherits key target) :
    g.StoresIdentifier o key target := by
  rcases eq_or_mem_ancestors_iff.mpr (Relation.ReflTransGen.single h) with rfl | hmem
  · exact storesIdentifier_self g o target
  · exact storesIdentifier_of_mem_ancestors o hmem

theorem storesIdentifier_of_mem_references (o : ResolutionOptions) {l : Link}
    (h : l ∈ g.references key) : g.StoresIdentifier o key l.target := by
  refine ⟨g.referenceColumn o l, ?_, rfl, rfl⟩
  exact List.mem_cons_of_mem _ (List.mem_append_right _ (List.mem_map_of_mem h))

/-- What is known of the table of a term. -/
structure IsTable (g : Graph) (o : ResolutionOptions) (key : Key) (t : TableSchema) : Prop where
  acyclic : ¬ g.ReachesCycle key
  term_eq : t.term = key
  label_eq : t.label = g.label key
  table_eq : t.table = Name.table (g.label key)
  identifier_eq : t.identifier? = some (g.identifierColumn o key)
  nodup : t.columnNames.Nodup
  contributed : ∀ c ∈ t.columns, c ∈ g.contributions o key
  named : ∀ c ∈ g.contributions o key, ∃ k ∈ t.columns, k.name = c.name ∧
    (t.issues = [] → k.term = c.term)
  conflicts : ∀ i ∈ t.issues, i.IsConflict

theorem isTable_of_table_eq_ok (h : g.table o key = .ok t) : g.IsTable o key t := by
  obtain ⟨⟨⟩, hacyclic, h⟩ := bind_eq_ok_iff.mp h
  obtain ⟨d, hd, h⟩ := bind_eq_ok_iff.mp h
  obtain rfl := Except.ok.inj h
  have hextends := Draft.addAll_extends hd
  -- the identifier comes first, and what is taken stays
  obtain ⟨own, hown, hrest⟩ := foldlM_cons_eq_ok_iff.mp hd
  have hidentifier : [g.identifierColumn o key] <+: d.columns := by
    have hadd : Draft.empty.add id ⟨.physical, g.label key, o.strict⟩ (g.identifierColumn o key) =
        .ok ⟨[g.identifierColumn o key], []⟩ := rfl
    obtain rfl := Except.ok.inj (hadd.symm.trans hown)
    exact (Draft.addAll_extends hrest).columns_kept
  refine ⟨requireAcyclic_eq_ok_iff.mp hacyclic, rfl, rfl, rfl, ?_, ?_, ?_, ?_, ?_⟩
  · obtain ⟨rest, hcolumns⟩ := hidentifier
    simp [TableSchema.identifier?, ← hcolumns]
  · exact hextends.nodup List.nodup_nil
  · intro c hc
    exact (hextends.contributed c hc).resolve_left (List.not_mem_nil)
  · exact hextends.named
  · intro i hi
    exact (hextends.conflicts i hi).resolve_left (List.not_mem_nil)

theorem IsTable.mem_columnNames_of_storesIdentifier (h : g.IsTable o key t)
    (hstores : g.StoresIdentifier o key target) :
    (g.identifierColumn o target).name ∈ t.columnNames := by
  obtain ⟨c, hc, hname, -⟩ := hstores
  obtain ⟨k, hk, hkname, -⟩ := h.named c hc
  exact List.mem_map.mpr ⟨k, hk, hkname.trans hname⟩

theorem table_eq_error (ho : o.strict = false) {e : ResolutionError}
    (h : g.table o key = .error e) :
    g.ReachesCycle key ∧ ∃ cycle, e = .cyclicInheritance (g.label key) cycle := by
  rcases bind_eq_error_iff.mp h with h | ⟨-, -, h⟩
  · exact requireAcyclic_eq_error h
  · obtain ⟨d, hd⟩ := Draft.exists_addAll_eq_ok id
      (o := ⟨.physical, g.label key, o.strict⟩) ho Draft.empty (g.contributions o key)
    rcases bind_eq_error_iff.mp h with h | ⟨d', -, h⟩
    · cases hd.symm.trans h
    · cases h

theorem exists_table_eq_ok_iff (ho : o.strict = false) :
    (∃ t, g.table o key = .ok t) ↔ ¬ g.ReachesCycle key := by
  constructor
  · rintro ⟨t, ht⟩
    exact (isTable_of_table_eq_ok ht).acyclic
  · intro hacyclic
    cases h : g.table o key with
    | ok t => exact ⟨t, rfl⟩
    | error e => exact absurd (table_eq_error ho h).1 hacyclic

end Graph

end Glossary
