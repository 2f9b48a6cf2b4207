import Glossary.Proofs.EmbeddedViews
import Glossary.Proofs.RowPreservation
import Glossary.Sql.Generator

/-!
The statement for a view is self-contained. It defines the views that it is made from, each once and
each before it is joined, and it defines nothing that is not joined. Read from the top, with every
definition evaluated over the tables and the definitions before it, it gives the rows of the view.
-/

namespace Glossary

open Fallible Sql

namespace Sql

/-- The definitions have names of their own and come before they are joined, and all are joined. -/
structure CreateView.IsSelfContained (c : CreateView) : Prop where
  names_nodup : (c.name :: c.definitions.map Prod.fst).Nodup
  body_defined : ∀ j ∈ c.body.joins, ∀ x, j.table = Name.view x →
    j.table ∈ c.definitions.map Prod.fst
  defined_before : ∀ before d after, c.definitions = before ++ d :: after →
    ∀ j ∈ d.2.joins, ∀ x, j.table = Name.view x → j.table ∈ before.map Prod.fst
  used : ∀ before d after, c.definitions = before ++ d :: after →
    ∃ q ∈ c.body :: after.map Prod.snd, ∃ j ∈ q.joins, j.table = d.1

/-- The definitions as they stand in the text of a statement. -/
def CreateView.withClause (c : CreateView) : String :=
  if c.definitions.isEmpty then ""
  else "WITH " ++ ",\n".intercalate (c.definitions.map CreateView.renderDefinition) ++ "\n"

theorem CreateView.render_eq (c : CreateView) :
    c.render =
      "CREATE VIEW " ++ quote c.name ++ " AS\n" ++ c.withClause ++ c.body.render ++ ";\n" := by
  have hbreak : " AS\n" = " AS" ++ "\n" := rfl
  unfold CreateView.render CreateView.withClause
  cases c.definitions.isEmpty with
  | true => simp [hbreak, String.append_assoc]
  | false => simp [hbreak, String.append_assoc]

variable {α : Type} [DecidableEq α]

/-- Adds the rows of a definition to what there is. -/
def define (relation : Database α) (definition : String × Select) : Database α :=
  Function.update relation definition.1 (definition.2.rows relation)

/-- The rows of a statement: its definitions are evaluated in order, and then its query. -/
def CreateView.rows (db : Database α) (c : CreateView) : List (Row α) :=
  c.body.rows (c.definitions.foldl define db)

end Sql

namespace ViewSchema

/-- The text for a view: its definitions where they are inlined, and its query. -/
def statement (inlineViews : Bool) (v : ViewSchema) : String :=
  "CREATE VIEW " ++ quote v.view ++ " AS\n" ++
    (if inlineViews then (CreateView.ofSchema true v).withClause else "") ++
    (Select.ofSchema v).render ++ ";\n"

theorem render_ofSchema (inlineViews : Bool) (v : ViewSchema) :
    (CreateView.ofSchema inlineViews v).render = v.statement inlineViews := by
  cases inlineViews with
  | true => exact CreateView.render_eq _
  | false => exact CreateView.render_eq _

/-- How the statement of a view stands on its own. A definition is the query of an ancestor, with
the text that ends the statement of that ancestor, indented. Without inlining the outcome is the
same, less the definitions. -/
structure IsSelfContained (g : Graph) (o : ResolutionOptions) (key : Key) (v : ViewSchema) :
    Prop where
  statement_of : (CreateView.ofSchema true v).IsSelfContained
  definitions_of : ∀ d ∈ (CreateView.ofSchema true v).definitions, ∃ a s,
    Relation.TransGen g.Inherits key a ∧ g.view o a = .ok s ∧ d = (s.view, Select.ofSchema s) ∧
      CreateView.renderDefinition d =
        quote s.view ++ " AS (\n" ++ indent (Select.ofSchema s).render ++ "\n)" ∧
      ∀ (generator : Generator) (text : String), generator.createView s = .ok text →
        text = s.statement generator.inlineViews
  written : ∀ (generator : Generator) (text : String), generator.createView v = .ok text →
    text = v.statement generator.inlineViews
  uninlined : ∀ generator : Generator, { generator with inlineViews := false }.createView v =
    ({ generator with inlineViews := true }.createView v).map fun _ => v.statement false
  rows_eq : ∀ {α : Type} [DecidableEq α] (db : Database α),
    (CreateView.ofSchema true v).rows db = v.rows db

end ViewSchema

namespace Sql.Generator

variable {generator : Generator} {v : ViewSchema} {text : String}

theorem eq_of_createView_eq_ok (h : generator.createView v = .ok text) :
    text = v.statement generator.inlineViews := by
  obtain ⟨⟨⟩, -, h⟩ := bind_eq_ok_iff.mp h
  obtain ⟨⟨⟩, -, h⟩ := bind_eq_ok_iff.mp h
  rw [← ViewSchema.render_ofSchema]
  exact (Except.ok.inj h).symm

theorem createView_uninlined (generator : Generator) (v : ViewSchema) :
    { generator with inlineViews := false }.createView v =
      ({ generator with inlineViews := true }.createView v).map fun _ => v.statement false := by
  simp only [createView]
  cases requireSound v.view v.faults with
  | error e => rfl
  | ok u =>
      cases requireTypes generator.types v.view (v.columns.map ViewColumn.toColumn) with
      | error e => rfl
      | ok u => exact congrArg Except.ok (v.render_ofSchema false)

end Sql.Generator

namespace Graph

variable {g : Graph} {primitives : Primitives} {terms : List Term} {o : ResolutionOptions}
  {key : Key} {v s : ViewSchema} {found : List ViewSchema}

/-- The definitions of views that are listed hold the rows of these, and leave the tables as they
are. -/
theorem ListsViews.foldl_define {α : Type} [DecidableEq α] (h : g.ListsViews o found)
    (db : Database α) :
    (∀ name, (found.map fun a => (a.view, Select.ofSchema a)).foldl define db (Name.table name) =
        db (Name.table name)) ∧
      ∀ s ∈ found, (found.map fun a => (a.view, Select.ofSchema a)).foldl define db s.view =
        s.rows db := by
  induction h with
  | nil => simp
  | @snoc found last _ hview _ hembedded hfresh ih =>
      obtain ⟨htables, hviews⟩ := ih
      obtain ⟨_, _, _, hassembles⟩ := exists_assembles hview
      have hlast := hassembles.select_rows htables fun s hs => hviews s (hembedded hs)
      rw [List.map_append, List.foldl_append, List.map_singleton, List.foldl_cons, List.foldl_nil,
        define, hlast]
      constructor
      · intro name
        rw [Function.update_of_ne, htables]
        rw [view_name_eq hview]
        exact Name.table_ne_view _ _
      · intro s hs
        rcases List.mem_append.mp hs with hs | hs
        · rw [Function.update_of_ne (hfresh s hs), hviews s hs]
        · rw [List.mem_singleton.mp hs, Function.update_self]

theorem listsViews_embeddedViews (hg : build primitives terms = .ok g)
    (hnames : (terms.map fun t => Name.snakeCase t.name).Nodup) (hkey : g.declares key = true)
    (hv : g.view o key = .ok v) :
    g.ListsViews o (embeddedViews v) ∧ g.AddsViews v.ancestors [] (embeddedViews v) := by
  obtain ⟨new, hnew, hlists, hadds⟩ := extendsBelow hg hnames hkey hv [] .nil
  rw [embeddedViews, hnew]
  exact ⟨hlists, hadds⟩

/-- A join that reads a view reads one that is embedded. -/
theorem exists_ancestor_of_table_eq (hv : g.view o key = .ok v) {j : JoinClause}
    (hj : j ∈ (Select.ofSchema v).joins) {x : String} (hname : j.table = Name.view x) :
    ∃ s ∈ v.ancestors, j.table = s.view := by
  obtain ⟨table, exposed, parents, h⟩ := exists_assembles hv
  obtain ⟨i, hi, rfl⟩ := List.mem_map.mp hj
  rcases h.reads hi with ⟨-, htable⟩ | ⟨-, s, hs, -, hview⟩
  · exact absurd (htable.symm.trans hname) (Name.table_ne_view _ _)
  · exact ⟨s, hs, hview⟩

theorem exists_join_of_mem_ancestors (hv : g.view o key = .ok v) (hs : s ∈ v.ancestors) :
    ∃ j ∈ (Select.ofSchema v).joins, j.table = s.view := by
  obtain ⟨table, exposed, parents, h⟩ := exists_assembles hv
  obtain ⟨-, j, hj, -, -, hname⟩ := h.exists_join_of_mem_ancestors hs
  exact ⟨JoinClause.ofJoin j, List.mem_map_of_mem hj, hname⟩

theorem embedded_inherits (hg : build primitives terms = .ok g) (hkey : g.declares key = true)
    (hv : g.view o key = .ok v) (hadds : g.AddsViews v.ancestors [] found) (hs : s ∈ found) :
    Relation.TransGen g.Inherits key s.term := by
  obtain ⟨y, hy, hreach⟩ := hadds.reached s hs
  exact Relation.TransGen.head' (mem_ancestors_view hg hv hkey hy).1 hreach

theorem createView_isSelfContained (hg : build primitives terms = .ok g)
    (hnames : (terms.map fun t => Name.snakeCase t.name).Nodup) (hkey : g.declares key = true)
    (hv : g.view o key = .ok v) : (CreateView.ofSchema true v).IsSelfContained := by
  obtain ⟨hlists, hadds⟩ := listsViews_embeddedViews hg hnames hkey hv
  have hdefined : ∀ {ss : List ViewSchema}, (∀ {s}, s ∈ ss → s.view ∈
      (ss.map fun a => (a.view, Select.ofSchema a)).map Prod.fst) := by
    intro ss s hs
    rw [List.map_map]
    exact List.mem_map.mpr ⟨s, hs, rfl⟩
  constructor
  case names_nodup =>
    show (v.view :: ((embeddedViews v).map fun a => (a.view, Select.ofSchema a)).map Prod.fst).Nodup
    rw [List.map_map]
    refine List.nodup_cons.mpr ⟨fun hmem => ?_, hlists.nodup⟩
    obtain ⟨s, hs, hname⟩ := List.mem_map.mp hmem
    have hinherits := embedded_inherits hg hkey hv hadds hs
    obtain ⟨hview, hdeclared⟩ := hlists.view_eq_ok hs
    have hsame : Name.view (g.label s.term) = Name.view (g.label key) := by
      rw [← view_name_eq hview, ← view_name_eq hv]
      exact hname
    rw [eq_of_view_eq hg hnames hdeclared hkey hsame] at hinherits
    obtain ⟨table, _, _, h⟩ := exists_assembles hv
    exact (isTable_of_table_eq_ok h.table_eq_ok).acyclic
      ⟨key, Relation.ReflTransGen.refl, hinherits⟩
  case body_defined =>
    intro j hj x hname
    obtain ⟨s, hs, hview⟩ := exists_ancestor_of_table_eq hv hj hname
    rw [hview]
    exact hdefined (hadds.covers hs)
  case defined_before =>
    intro before d after hsplit j hj x hname
    obtain ⟨views, rest, happend, rfl, hrest⟩ := List.map_eq_append_iff.mp hsplit
    obtain ⟨s, later, rfl, rfl, rfl⟩ := List.map_eq_cons_iff.mp hrest
    have hs : s ∈ embeddedViews v := by simp [happend]
    obtain ⟨s', hs', hview⟩ := exists_ancestor_of_table_eq (hlists.view_eq_ok hs).1 hj hname
    rw [hview]
    exact hdefined (hlists.ancestors_subset happend hs')
  case used =>
    intro before d after hsplit
    obtain ⟨views, rest, happend, rfl, hrest⟩ := List.map_eq_append_iff.mp hsplit
    obtain ⟨s, later, rfl, rfl, rfl⟩ := List.map_eq_cons_iff.mp hrest
    rcases hadds.used views s later happend with hs | ⟨y, hy, hs⟩
    · exact ⟨_, List.mem_cons_self, exists_join_of_mem_ancestors hv hs⟩
    · have hmem : y ∈ embeddedViews v := by simp [happend, hy]
      refine ⟨Select.ofSchema y, List.mem_cons_of_mem _ ?_,
        exists_join_of_mem_ancestors (hlists.view_eq_ok hmem).1 hs⟩
      rw [List.map_map]
      exact List.mem_map.mpr ⟨y, hy, rfl⟩

/-- When the terms have distinct database names, the statement for every view that is resolved is
self-contained. -/
theorem view_isSelfContained {g : Graph} {primitives : Primitives} {terms : List Term}
    {o : ResolutionOptions} {key : Key} {v : ViewSchema} (hg : build primitives terms = .ok g)
    (hnames : (terms.map fun t => Name.snakeCase t.name).Nodup) (hkey : g.declares key = true)
    (hv : g.view o key = .ok v) : v.IsSelfContained g o key := by
  obtain ⟨hlists, hadds⟩ := listsViews_embeddedViews hg hnames hkey hv
  obtain ⟨table, exposed, parents, h⟩ := exists_assembles hv
  constructor
  case statement_of => exact createView_isSelfContained hg hnames hkey hv
  case definitions_of =>
    intro d hd
    obtain ⟨s, hs, rfl⟩ := List.mem_map.mp hd
    exact ⟨s.term, s, embedded_inherits hg hkey hv hadds hs, (hlists.view_eq_ok hs).1, rfl, rfl,
      fun generator text htext => Generator.eq_of_createView_eq_ok htext⟩
  case written => exact fun generator text htext => Generator.eq_of_createView_eq_ok htext
  case uninlined => exact fun generator => generator.createView_uninlined v
  case rows_eq =>
    intro α _ db
    obtain ⟨htables, hviews⟩ := hlists.foldl_define db
    exact h.select_rows htables fun s hs => hviews s (hadds.covers hs)

theorem manager_isSelfContained : ∃ v,
    build (Primitives.ofNames builtInPrimitives) staffTerms = .ok staff ∧
      (staffTerms.map fun t => Name.snakeCase t.name).Nodup ∧ staff.declares "manager" = true ∧
      staff.view .standard "manager" = .ok v ∧ v.IsSelfContained staff .standard "manager" := by
  obtain ⟨v, hv, -⟩ := exists_of_map_eq_ok staff_view_manager
  have hnames : (staffTerms.map fun t => Name.snakeCase t.name).Nodup := by decide +kernel
  have hdeclared : staff.declares "manager" = true := by decide +kernel
  exact ⟨v, build_staffTerms, hnames, hdeclared, hv,
    view_isSelfContained build_staffTerms hnames hdeclared hv⟩

end Graph

end Glossary
