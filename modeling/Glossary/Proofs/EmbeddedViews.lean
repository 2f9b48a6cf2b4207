import Glossary.Proofs.ViewTerms
import Glossary.Sql.Query

/-!
The views that a view is made from. They are listed each once, each after those that it joins
itself, and each of them is joined by a later one or by the view itself.
-/

namespace Glossary

open Sql

namespace Graph

variable {g : Graph} {primitives : Primitives} {terms : List Term} {o : ResolutionOptions}
  {key a b : Key} {v s : ViewSchema} {found ss : List ViewSchema}

/-- Terms with distinct database names are told apart by the names of their views. -/
theorem eq_of_view_eq (hg : build primitives terms = .ok g)
    (hnames : (terms.map fun t => Name.snakeCase t.name).Nodup) (ha : g.declares a = true)
    (hb : g.declares b = true) (h : Name.view (g.label a) = Name.view (g.label b)) : a = b :=
  eq_of_snakeCase_eq hg hnames ha hb ((String.append_right_inj _).mp h)

/-- A list of views of declared terms, with distinct names, each after those that it embeds. -/
inductive ListsViews (g : Graph) (o : ResolutionOptions) : List ViewSchema → Prop
  | nil : ListsViews g o []
  | snoc {found : List ViewSchema} {s : ViewSchema} : ListsViews g o found →
      g.view o s.term = .ok s → g.declares s.term = true → s.ancestors ⊆ found →
      (∀ other ∈ found, other.view ≠ s.view) → ListsViews g o (found ++ [s])

namespace ListsViews

theorem view_eq_ok (h : g.ListsViews o found) (hs : s ∈ found) :
    g.view o s.term = .ok s ∧ g.declares s.term = true := by
  induction h with
  | nil => cases hs
  | snoc _ hview hdeclared _ _ ih =>
      rcases List.mem_append.mp hs with hs | hs
      · exact ih hs
      · rw [List.mem_singleton.mp hs]
        exact ⟨hview, hdeclared⟩

theorem nodup (h : g.ListsViews o found) : (found.map ViewSchema.view).Nodup := by
  induction h with
  | nil => exact List.nodup_nil
  | snoc _ _ _ _ hfresh ih =>
      rw [List.map_append, List.map_singleton]
      refine nodup_append_singleton ih fun hmem => ?_
      obtain ⟨other, hother, hname⟩ := List.mem_map.mp hmem
      exact hfresh other hother hname

theorem ancestors_subset (h : g.ListsViews o found) {before after : List ViewSchema}
    (hsplit : found = before ++ s :: after) : s.ancestors ⊆ before := by
  induction h generalizing after with
  | nil => simp at hsplit
  | @snoc found last _ _ _ hembedded _ ih =>
      rcases List.eq_nil_or_concat after with rfl | ⟨after, other, rfl⟩
      · obtain ⟨rfl, hlast⟩ := List.append_inj' hsplit rfl
        obtain rfl := (List.cons.inj hlast).1
        exact hembedded
      · rw [List.concat_eq_append, ← List.cons_append, ← List.append_assoc] at hsplit
        exact ih (List.append_inj' hsplit rfl).1

end ListsViews

theorem view_name_eq (hv : g.view o key = .ok v) : v.view = Name.view (g.label key) := by
  obtain ⟨table, exposed, parents, h⟩ := exists_assembles hv
  rw [h.view_eq, (isTable_of_table_eq_ok h.table_eq_ok).label_eq]

/-- Embedded views are views of declared parents. -/
theorem mem_ancestors_view (hg : build primitives terms = .ok g) (hv : g.view o key = .ok v)
    (hkey : g.declares key = true) (hs : s ∈ v.ancestors) :
    g.Inherits key s.term ∧ g.view o s.term = .ok s ∧ g.declares s.term = true := by
  obtain ⟨table, exposed, parents, h⟩ := exists_assembles hv
  have hparent := (h.exists_join_of_mem_ancestors hs).1
  exact ⟨hparent, h.exists_view_of_mem_ancestors hs,
    declares_of_reflTransGen hg (Relation.ReflTransGen.single hparent) hkey⟩

/-- What is added to the list `found` so that it covers `ss`. Each addition is one of these, or it
is embedded in a later addition. -/
structure AddsViews (g : Graph) (ss found new : List ViewSchema) : Prop where
  covers : ss ⊆ found ++ new
  reached : ∀ x ∈ new, ∃ s ∈ ss, Relation.ReflTransGen g.Inherits s.term x.term
  used : ∀ before x after, new = before ++ x :: after → x ∈ ss ∨ ∃ y ∈ after, x ∈ y.ancestors

namespace AddsViews

variable {new new' : List ViewSchema}

theorem of_mem (h : g.AddsViews ss found new) (hs : s ∈ found) :
    g.AddsViews (s :: ss) found new where
  covers := List.cons_subset.mpr ⟨List.mem_append_left _ hs, h.covers⟩
  reached := fun x hx => (h.reached x hx).imp fun _ => And.imp_left (List.mem_cons_of_mem s)
  used := fun before x after hsplit =>
    (h.used before x after hsplit).imp_left (List.mem_cons_of_mem s)

/-- A view is added after those that it embeds. -/
theorem cons (h : g.AddsViews s.ancestors found new)
    (hparents : ∀ x ∈ s.ancestors, g.Inherits s.term x.term)
    (h' : g.AddsViews ss (found ++ new ++ [s]) new') :
    g.AddsViews (s :: ss) found (new ++ s :: new') where
  covers := by
    refine List.cons_subset.mpr ⟨by simp, fun x hx => ?_⟩
    simpa using h'.covers hx
  reached := by
    intro x hx
    rcases List.mem_append.mp hx with hx | hx
    · obtain ⟨y, hy, hreach⟩ := h.reached x hx
      exact ⟨s, List.mem_cons_self, hreach.head (hparents y hy)⟩
    · rcases List.mem_cons.mp hx with rfl | hx
      · exact ⟨x, List.mem_cons_self, Relation.ReflTransGen.refl⟩
      · exact (h'.reached x hx).imp fun _ => And.imp_left (List.mem_cons_of_mem s)
  used := by
    intro before x after hsplit
    rcases exists_of_append_eq_append_cons hsplit with ⟨mid, hnew, rfl⟩ | ⟨mid, -, hcons⟩
    · rcases h.used before x mid hnew with hx | ⟨y, hy, hx⟩
      · exact Or.inr ⟨s, by simp, hx⟩
      · exact Or.inr ⟨y, List.mem_append_left _ hy, hx⟩
    · cases mid with
      | nil =>
          obtain ⟨rfl, -⟩ := List.cons.inj hcons
          exact Or.inl List.mem_cons_self
      | cons y mid =>
          obtain ⟨-, hnew'⟩ := List.cons.inj hcons
          exact (h'.used mid x after hnew').imp_left (List.mem_cons_of_mem s)

end AddsViews

/-- The list is extended by the views that lie below `s`. -/
def ExtendsBelow (g : Graph) (o : ResolutionOptions) (s : ViewSchema) : Prop :=
  ∀ found, g.ListsViews o found → ∃ new, viewsBelow found s = found ++ new ∧
    g.ListsViews o (found ++ new) ∧ g.AddsViews s.ancestors found new

theorem exists_addViews (hg : build primitives terms = .ok g)
    (hnames : (terms.map fun t => Name.snakeCase t.name).Nodup)
    (hss : ∀ s ∈ ss, g.view o s.term = .ok s ∧ g.declares s.term = true ∧ g.ExtendsBelow o s)
    (hfound : g.ListsViews o found) :
    ∃ new, addViews found ss = found ++ new ∧ g.ListsViews o (found ++ new) ∧
      g.AddsViews ss found new := by
  induction ss generalizing found with
  | nil =>
      refine ⟨[], by simp [addViews], by simpa using hfound, by simp, by simp, by simp⟩
  | cons s ss ih =>
      rw [List.forall_mem_cons] at hss
      obtain ⟨⟨hview, hdeclared, hbelow⟩, hss⟩ := hss
      have hsame : ∀ {x : ViewSchema}, g.view o x.term = .ok x → g.declares x.term = true →
          x.view = s.view → x.term = s.term := by
        intro x hx hxdeclared hname
        rw [view_name_eq hx, view_name_eq hview] at hname
        exact eq_of_view_eq hg hnames hxdeclared hdeclared hname
      rw [addViews]
      split
      · rename_i hany
        obtain ⟨x, hx, hname⟩ := List.any_eq_true.mp hany
        obtain ⟨hxview, hxdeclared⟩ := hfound.view_eq_ok hx
        rw [hsame hxview hxdeclared (beq_iff_eq.mp hname), hview] at hxview
        obtain rfl := Except.ok.inj hxview
        obtain ⟨new, hnew, hlists, hadds⟩ := ih hss hfound
        exact ⟨new, hnew, hlists, hadds.of_mem hx⟩
      · rename_i hnone
        obtain ⟨new, hnew, hlists, hadds⟩ := hbelow found hfound
        have hparents : ∀ x ∈ s.ancestors, g.Inherits s.term x.term := fun x hx =>
          (mem_ancestors_view hg hview hdeclared hx).1
        -- a view of the same name below `s` would close a cycle
        have hfresh : ∀ x ∈ found ++ new, x.view ≠ s.view := by
          intro x hx hname
          have hterm := hsame (hlists.view_eq_ok hx).1 (hlists.view_eq_ok hx).2 hname
          rcases List.mem_append.mp hx with hx | hx
          · exact hnone (List.any_eq_true.mpr ⟨x, hx, beq_iff_eq.mpr hname⟩)
          · obtain ⟨y, hy, hreach⟩ := hadds.reached x hx
            obtain ⟨t, _, _, h⟩ := exists_assembles hview
            have hround := Relation.TransGen.head' (hparents y hy) (hterm ▸ hreach)
            exact (isTable_of_table_eq_ok h.table_eq_ok).acyclic
              ⟨s.term, Relation.ReflTransGen.refl, hround⟩
        have hembedded : s.ancestors ⊆ found ++ new := hadds.covers
        obtain ⟨new', hnew', hlists', hadds'⟩ :=
          ih hss (hlists.snoc hview hdeclared hembedded hfresh)
        refine ⟨new ++ s :: new', ?_, by simpa using hlists', hadds.cons hparents hadds'⟩
        rw [hnew, hnew']
        simp

theorem viewsBelow_eq (found : List ViewSchema) (s : ViewSchema) :
    viewsBelow found s = addViews found s.ancestors := by
  cases s
  rw [viewsBelow]

theorem extendsBelow (hg : build primitives terms = .ok g)
    (hnames : (terms.map fun t => Name.snakeCase t.name).Nodup) (hkey : g.declares key = true)
    (hv : g.view o key = .ok v) : g.ExtendsBelow o v := by
  refine view_induction (motive := fun key v => g.view o key = .ok v → g.declares key = true →
    g.ExtendsBelow o v) ?_ hv hv hkey
  intro key table exposed parents v h hviews hv hkey found hfound
  rw [viewsBelow_eq]
  refine exists_addViews hg hnames (fun s hs => ?_) hfound
  obtain ⟨-, hview, hdeclared⟩ := mem_ancestors_view hg hv hkey hs
  exact ⟨hview, hdeclared, hviews s hs hview hdeclared⟩

end Graph

end Glossary
