import Glossary.Proofs.Attributes
import Glossary.Proofs.Strictness
import Glossary.Proofs.ViewConstruction

/-!
A view reports the ambiguities of its own table and of the columns that are joined to it. The tables
that it joins, and the views of its parents, have their own, which it does not report; strict
resolution stops at all of them.
-/

namespace Glossary

open Fallible

namespace Graph

variable {g : Graph} {o o' : ResolutionOptions} {type : String} {key : Key} {v : ViewSchema}
  {n : Nat} {path parents : List Key} {hops : List Hop} {as : List Attachment}

/-- A parent of a term that reaches no cycle has fewer ancestors than the term. -/
theorem length_ancestors_lt (hacyclic : ¬g.ReachesCycle key) {parent : Key}
    (hparent : g.Inherits key parent) :
    (g.ancestors parent).length < (g.ancestors key).length := by
  have hne : ∀ a, Relation.TransGen g.Inherits key a → a ≠ key := by
    rintro a hreach rfl
    exact hacyclic ⟨a, Relation.ReflTransGen.refl, hreach⟩
  have hfresh : parent ∉ g.ancestors parent := fun hmem => (mem_ancestors_iff.mp hmem).1 rfl
  have hnodup : (parent :: g.ancestors parent).Nodup :=
    List.nodup_cons.mpr ⟨hfresh, (pairwise_ancestors g parent).imp And.left⟩
  have hsubset : parent :: g.ancestors parent ⊆ g.ancestors key := by
    intro a ha
    have hreach : Relation.TransGen g.Inherits key a := by
      rcases List.mem_cons.mp ha with rfl | ha
      · exact Relation.TransGen.single hparent
      · exact Relation.TransGen.head hparent (mem_ancestors_iff.mp ha).2
    exact mem_ancestors_iff.mpr ⟨hne a hreach, hreach⟩
  exact Nat.lt_of_succ_le (List.subperm_of_subset hnodup hsubset).length_le

/-- What passes from the views of all parents to the view of a term holds of every view. -/
theorem view_induction_inherits {motive : Key → ViewSchema → Prop}
    (step : ∀ {key table exposed parents v}, g.Assembles o key table exposed parents v →
      (∀ parent s, g.Inherits key parent → g.view o parent = .ok s → motive parent s) →
      motive key v)
    {key : Key} {v : ViewSchema} (hv : g.view o key = .ok v) : motive key v := by
  obtain ⟨table, exposed, parents, h⟩ := exists_assembles hv
  refine step h fun parent s hparent hs => ?_
  have hlt := length_ancestors_lt (isTable_of_table_eq_ok h.table_eq_ok).acyclic hparent
  exact view_induction_inherits step hs
termination_by (g.ancestors key).length

section Transfer

theorem arrivalHops_congr (htype : o.identifierType = o'.identifierType) (n : Nat) (hop : Hop) :
    g.arrivalHops o n hop = g.arrivalHops o' n hop := by
  unfold arrivalHops ancestorHop
  rw [identifierColumn_congr g htype]

theorem onwardHops_congr (htype : o.identifierType = o'.identifierType) (hop : Hop)
    (tables : List Attachment) : g.onwardHops o hop tables = g.onwardHops o' hop tables := by
  unfold onwardHops
  congr 1
  funext a
  exact furtherHops_eq (AgreesOn.refl g) htype (Set.mem_univ a.standing.1) hop.isOptional

/-- Where the joined tables come out the same, the same is joined. -/
theorem TablesJoined.transfer (h : g.TablesJoined o n hops as)
    (htables : ∀ a ∈ as, ∀ t, g.table o a.join.target = .ok t →
      g.table o' a.join.target = .ok t) : g.TablesJoined o' n hops as := by
  induction h with
  | nil n => exact .nil n
  | cons htable _ ih =>
      refine .cons (htables _ List.mem_cons_self _ htable) (ih fun a ha => ?_)
      exact htables a (List.mem_cons_of_mem _ ha)

theorem Exposed.transfer (h : g.Exposed o path n hops as)
    (htype : o.identifierType = o'.identifierType)
    (htables : ∀ a ∈ as, ∀ t, g.table o a.join.target = .ok t →
      g.table o' a.join.target = .ok t) : g.Exposed o' path n hops as := by
  induction h with
  | nil path n => exact .nil path n
  | cons hfresh hjoined _ _ ihBelow ihAfter =>
      simp only [List.forall_mem_append] at htables
      obtain ⟨⟨htables, hbelow⟩, hafter⟩ := htables
      refine .cons hfresh ?_ ?_ (ihAfter hafter)
      · rw [← arrivalHops_congr htype]
        exact hjoined.transfer htables
      · rw [← onwardHops_congr htype]
        exact ihBelow hbelow

theorem ParentsJoined.transfer (h : g.ParentsJoined o key n parents as)
    (htype : o.identifierType = o'.identifierType)
    (hviews : ∀ parent ∈ parents, ∀ s, g.view o parent = .ok s → g.view o' parent = .ok s) :
    g.ParentsJoined o' key n parents as := by
  induction h with
  | nil n => exact .nil n
  | @cons n parent rest ancestor as hancestor _ ih =>
      have hsame : g.parentAttachment o key n parent ancestor =
          g.parentAttachment o' key n parent ancestor := by
        unfold parentAttachment
        rw [identifierColumn_congr g htype]
      obtain ⟨hfirst, hrest⟩ := List.forall_mem_cons.mp hviews
      rw [hsame]
      exact .cons (hfirst ancestor hancestor) (ih hrest)

end Transfer

/-- Neither the view nor the table of a term that it joins has an ambiguity. -/
structure IsClear (g : Graph) (type : String) (v : ViewSchema) : Prop where
  own : Unambiguous v.issues
  joined : ∀ j ∈ v.joins, ∀ t, g.table ⟨type, false⟩ j.target = .ok t → Unambiguous t.issues

theorem table_strict_of_unambiguous {t : TableSchema} (ht : g.table ⟨type, false⟩ key = .ok t)
    (h : Unambiguous t.issues) : g.table ⟨type, true⟩ key = .ok t :=
  (table_strict ht).eq_ok_iff.mpr ⟨rfl, h⟩

theorem view_of_strict (h : g.view ⟨type, true⟩ key = .ok v) :
    g.view ⟨type, false⟩ key = .ok v := by
  rcases view_does g type key with heq | ⟨term, column, kept, dropped, herror⟩
  · rw [← heq, h]
  · cases h.symm.trans herror

theorem isClear_of_strict (h : g.view ⟨type, true⟩ key = .ok v) : g.IsClear type v := by
  obtain ⟨table, exposed, parents, hassembles⟩ := exists_assembles h
  refine ⟨hassembles.unambiguous, fun j hj t ht => ?_⟩
  obtain ⟨t', ht', -⟩ := hassembles.exists_joined_table hj
  exact ((table_strict ht).eq_ok_iff.mp ht').2

/-- What is assembled without an ambiguity is assembled strictly. -/
theorem Assembles.strict {table : TableSchema} {exposed parents : List Attachment}
    (h : g.Assembles ⟨type, false⟩ key table exposed parents v) (hclear : g.IsClear type v)
    (hviews : ∀ parent, g.Inherits key parent → ∀ s, g.view ⟨type, false⟩ parent = .ok s →
      g.view ⟨type, true⟩ parent = .ok s) :
    g.Assembles ⟨type, true⟩ key table exposed parents v := by
  obtain ⟨new, hissues, hyields⟩ := Draft.addAll_strict h.columns_of
  have hissues : v.issues = table.issues ++ new := hissues
  have hown := hclear.own
  rw [hissues, Unambiguous, List.forall_mem_append] at hown
  exact {
    h with
    table_eq_ok := table_strict_of_unambiguous h.table_eq_ok hown.1
    exposed_of := by
      rw [← firstHops_eq (AgreesOn.refl g) rfl (Set.mem_univ key)]
      refine h.exposed_of.transfer rfl fun a ha t ht => table_strict_of_unambiguous ht ?_
      refine hclear.joined a.join ?_ t ht
      rw [h.joins_eq]
      exact List.mem_map_of_mem (List.mem_append_left parents ha)
    parents_of := h.parents_of.transfer rfl hviews
    columns_of := hyields.eq_ok_iff.mpr ⟨rfl, hown.2⟩ }

/-- Strict resolution keeps a view when neither it, nor the view of an ancestor, nor a table that
one of these joins has an ambiguity; and refuses it otherwise. -/
theorem strict_view_iff (hv : g.view ⟨type, false⟩ key = .ok v) :
    (g.view ⟨type, true⟩ key = .ok v ↔
      ∀ a w, Relation.ReflTransGen g.Inherits key a → g.view ⟨type, false⟩ a = .ok w →
        g.IsClear type w) ∧
      (g.view ⟨type, true⟩ key = .ok v ∨ Refuses (g.view ⟨type, true⟩ key)) := by
  refine ⟨⟨?_, ?_⟩, ?_⟩
  · intro hstrict a w hreach hw
    obtain ⟨w', hw'⟩ := exists_view_of_reflTransGen hstrict hreach
    obtain rfl := Except.ok.inj (hw.symm.trans (view_of_strict hw'))
    exact isClear_of_strict hw'
  · refine view_induction_inherits (motive := fun key v =>
      (∀ a w, Relation.ReflTransGen g.Inherits key a → g.view ⟨type, false⟩ a = .ok w →
        g.IsClear type w) → g.view ⟨type, true⟩ key = .ok v) ?_ hv
    intro key table exposed parents v h hparents hclear
    have hown := hclear key v Relation.ReflTransGen.refl h.view_eq_ok
    refine (h.strict hown fun parent hparent s hs => ?_).view_eq_ok
    exact hparents parent s hparent hs fun a w hreach => hclear a w (hreach.head hparent)
  · rw [← hv]
    exact view_does g type key

theorem build_bundleTerms :
    build (Primitives.ofNames builtInPrimitives) bundleTerms = .ok bundle := by
  rfl

/-- An order shows nothing of the ambiguity in the bundle that it joins. -/
theorem order_hidesAmbiguity :
    build (Primitives.ofNames builtInPrimitives) bundleTerms = .ok bundle ∧
    ∃ v, bundle.view ⟨"String", false⟩ "order" = .ok v ∧ v.issues = [] ∧
      bundle.view ⟨"String", true⟩ "order" =
        .error (.ambiguousIdentifier "Bundle" "item_id" "Item" "Article") := by
  have hview : (bundle.view ⟨"String", false⟩ "order").map (fun v => v.issues.isEmpty) = .ok true ∧
      (bundle.view ⟨"String", true⟩ "order").map (fun _ => ()) =
        .error (.ambiguousIdentifier "Bundle" "item_id" "Item" "Article") := by
    decide +kernel
  obtain ⟨v, hv, hissues⟩ := exists_of_map_eq_ok hview.1
  exact ⟨build_bundleTerms, v, hv, List.isEmpty_iff.mp hissues, map_eq_error_iff.mp hview.2⟩

theorem item_isClear :
    ∃ v, bundle.view ⟨"String", false⟩ "item" = .ok v ∧
      ∀ a w, Relation.ReflTransGen bundle.Inherits "item" a →
        bundle.view ⟨"String", false⟩ a = .ok w → bundle.IsClear "String" w := by
  have hitem : (bundle.view ⟨"String", true⟩ "item").map (fun _ => ()) = .ok () := by
    decide +kernel
  obtain ⟨v, hstrict, -⟩ := exists_of_map_eq_ok hitem
  have hv := view_of_strict hstrict
  exact ⟨v, hv, (strict_view_iff hv).1.mp hstrict⟩

end Graph

end Glossary
