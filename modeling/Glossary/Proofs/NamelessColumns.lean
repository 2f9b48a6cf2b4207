import Glossary.Proofs.SelfContainment
import Glossary.Proofs.StatementColumns
import Glossary.Proofs.TableStatements
import Glossary.Proofs.TypedSchemas

/-!
Which column names a statement prints. The statement of a table prints the columns of the table, all
of which have names. The statement of a view prints the columns of all tables that it reads, among
them those without a name, for which these tables get no statement.
-/

namespace Glossary

open Fallible Sql

def ViewSchema.Embeds (v s : ViewSchema) : Prop :=
  s ∈ v.ancestors

namespace Sql

/-- The names of columns in a query: those of its output, and those in its join conditions. -/
def Select.columnNames (q : Select) : List String :=
  q.output.map ColumnRef.column ++ q.joins.flatMap fun j => [j.key.column, j.reference.column]

/-- A statement of either layer. -/
inductive Statement where
  | table (statement : CreateTable)
  | view (statement : CreateView)

namespace Statement

def render : Statement → String
  | table statement => statement.render
  | view statement => statement.render

/-- The names of columns that the statement prints. -/
def columnNames : Statement → List String
  | table statement => statement.columns.map ColumnDefinition.name
  | view statement => statement.definitions.flatMap (fun d => d.2.columnNames) ++
      statement.body.columnNames

end Statement

namespace Generator

variable {generator : Generator} {s : Schema} {text : String}

/-- The statement that is written for a schema without faults. -/
def statement (generator : Generator) : Schema → Except SqlError Statement
  | .table s => (CreateTable.ofSchema generator.types s).map .table
  | .view s => .ok (.view (CreateView.ofSchema generator.inlineViews s))

theorem exists_statement (h : generator.create s = .ok text) :
    ∃ statement, generator.statement s = .ok statement ∧ text = statement.render := by
  cases s with
  | table s =>
      obtain ⟨-, statement, hstatement, htext⟩ := exists_statement_of_createTable h
      refine ⟨.table statement, ?_, htext⟩
      rw [Generator.statement, hstatement]
      rfl
  | view s => exact ⟨_, rfl, (eq_of_createView_eq_ok h).trans (s.render_ofSchema _).symm⟩

end Generator

theorem mem_createTable_columnNames_iff {types : TypeMap} {t : TableSchema} {c : CreateTable}
    (h : CreateTable.ofSchema types t = .ok c) (name : String) :
    name ∈ (Statement.table c).columnNames ↔ name ∈ t.columnNames := by
  have hnames := congrArg (List.map Prod.fst) (map_columns_of_ofSchema h)
  rw [List.map_map, List.map_map] at hnames
  exact iff_of_eq (congrArg (name ∈ ·) hnames)

-- by induction on a view together with the list of the views that it embeds
mutual

theorem mem_viewsBelow {x : ViewSchema} : ∀ (v : ViewSchema) {found : List ViewSchema},
    x ∈ viewsBelow found v → x ∈ found ∨ Relation.TransGen ViewSchema.Embeds v x
  | ⟨_, _, _, _, _, _, _, ancestors, _⟩, _, hx => by
      rw [viewsBelow] at hx
      refine (mem_addViews ancestors hx).imp_right ?_
      rintro ⟨s, hs, hreach⟩
      exact Relation.TransGen.head' hs hreach

theorem mem_addViews {x : ViewSchema} : ∀ (ss : List ViewSchema) {found : List ViewSchema},
    x ∈ addViews found ss → x ∈ found ∨ ∃ s ∈ ss, Relation.ReflTransGen ViewSchema.Embeds s x
  | [], _, hx => Or.inl hx
  | s :: ss, _, hx => by
      have hlater : ∀ {found}, x ∈ addViews found ss →
          x ∈ found ∨ ∃ u ∈ s :: ss, Relation.ReflTransGen ViewSchema.Embeds u x := fun hx =>
        (mem_addViews ss hx).imp_right fun ⟨u, hu, hreach⟩ => ⟨u, List.mem_cons_of_mem s hu, hreach⟩
      rw [addViews] at hx
      split at hx
      · exact hlater hx
      · rcases hlater hx with hx | hx
        · rcases List.mem_append.mp hx with hx | hx
          · exact (mem_viewsBelow s hx).imp_right fun hreach =>
              ⟨s, List.mem_cons_self, hreach.to_reflTransGen⟩
          · rw [List.mem_singleton.mp hx]
            exact Or.inr ⟨s, List.mem_cons_self, Relation.ReflTransGen.refl⟩
        · exact Or.inr hx

end

theorem embeds_of_mem_embeddedViews {v x : ViewSchema} (hx : x ∈ embeddedViews v) :
    Relation.TransGen ViewSchema.Embeds v x :=
  (mem_viewsBelow v hx).resolve_left List.not_mem_nil

end Sql

/-- A table that is read for a view: by the view itself, or for a view that is embedded in it. -/
inductive ViewSchema.ReadsTable (g : Graph) (o : ResolutionOptions) :
    ViewSchema → TableSchema → Prop
  | base {v : ViewSchema} {t : TableSchema} : g.table o v.term = .ok t → v.baseTable = t.table →
      ReadsTable g o v t
  | join {v : ViewSchema} {j : Join} {t : TableSchema} : j ∈ v.joins → j.source = .table →
      g.table o j.target = .ok t → j.table = t.table → ReadsTable g o v t
  | embedded {v s : ViewSchema} {t : TableSchema} : s ∈ v.ancestors → ReadsTable g o s t →
      ReadsTable g o v t

namespace Graph

variable {g : Graph} {o : ResolutionOptions} {key : Key} {v s : ViewSchema} {t : TableSchema}

/-- The identifier of the term has a name of which nothing is left in snake case: its own, when the
term is a value, or that of the value which it is identified by. -/
def HasErasedIdentifier (g : Graph) (key : Key) : Prop :=
  ((g.primitiveType? key).isSome = true ∧ Name.snakeCase (g.label key) = "") ∨
    (g.primitiveType? key = none ∧ ∃ declared, g.declaredIdentifier? key = some declared ∧
      declared ≠ "" ∧ Name.snakeCase (g.label declared) = "")

/-- The table of the term has a column for such an identifier. -/
def HasNamelessColumn (g : Graph) (o : ResolutionOptions) (key : Key) : Prop :=
  ∃ x, g.StoresIdentifier o key x ∧ g.HasErasedIdentifier x

theorem identifierSource_eq_empty_iff :
    (g.identifierSource o key).1 = "" ↔ g.HasErasedIdentifier key := by
  unfold identifierSource HasErasedIdentifier
  cases hprimitive : g.primitiveType? key with
  | some primitive => simp
  | none =>
      cases hdeclared : g.declaredIdentifier? key with
      | none => simp [Name.identifierColumn]
      | some declared =>
          by_cases hblank : declared = ""
          · simp [hblank, Option.filter, Name.identifierColumn]
          · simp [hblank, Option.filter]

theorem IsTable.mem_columnNames_iff (h : g.IsTable o key t) {name : String} :
    name ∈ t.columnNames ↔
      ∃ x, g.StoresIdentifier o key x ∧ (g.identifierSource o x).1 = name := by
  constructor
  · intro hname
    obtain ⟨c, hc, rfl⟩ := List.mem_map.mp hname
    have hsource := source_eq_of_mem_contributions (h.contributed c hc)
    have hcname : c.name = (g.identifierSource o c.term).1 := congrArg Prod.fst hsource
    exact ⟨c.term, ⟨c, h.contributed c hc, hcname, rfl⟩, hcname.symm⟩
  · rintro ⟨x, hstores, rfl⟩
    exact h.mem_columnNames_of_storesIdentifier hstores

theorem IsTable.nameless_iff (h : g.IsTable o key t) :
    "" ∈ t.columnNames ↔ g.HasNamelessColumn o key := by
  rw [h.mem_columnNames_iff, HasNamelessColumn]
  simp only [identifierSource_eq_empty_iff]

theorem isTable_of_readsTable (h : v.ReadsTable g o t) : g.IsTable o t.term t := by
  have hown : ∀ {key : Key} {t : TableSchema}, g.table o key = .ok t → g.IsTable o t.term t := by
    intro key t ht
    have htable := isTable_of_table_eq_ok ht
    rw [htable.term_eq]
    exact htable
  induction h with
  | base ht _ => exact hown ht
  | join _ _ ht _ => exact hown ht
  | embedded _ _ ih => exact ih

theorem view_of_embeds (hv : g.view o key = .ok v) (hs : v.Embeds s) : g.view o s.term = .ok s := by
  obtain ⟨_, _, _, h⟩ := exists_assembles hv
  exact h.exists_view_of_mem_ancestors hs

/-- What an embedded view shows is shown by the view that it is embedded in. -/
theorem columnNames_subset_of_embeds (hv : g.view o key = .ok v) (hs : v.Embeds s) :
    s.columnNames ⊆ v.columnNames := by
  obtain ⟨_, _, _, h⟩ := exists_assembles hv
  have hparent := (h.exists_join_of_mem_ancestors hs).1
  obtain ⟨s', hs', hsubset, -⟩ := h.exists_parent_view hv hparent
  obtain rfl := Except.ok.inj (hs'.symm.trans (view_of_embeds hv hs))
  exact hsubset

theorem columnNames_subset_of_readsTable (hv : g.view o key = .ok v) (ht : v.ReadsTable g o t) :
    t.columnNames ⊆ v.columnNames := by
  induction ht generalizing key with
  | @base v t ht _ =>
      obtain ⟨table, _, _, h⟩ := exists_assembles hv
      rw [h.term_eq] at ht
      obtain rfl := Except.ok.inj (h.table_eq_ok.symm.trans ht)
      exact h.table_columnNames_subset
  | @join v j t hj _ ht _ =>
      obtain ⟨_, _, _, h⟩ := exists_assembles hv
      obtain ⟨t', ht', hsubset⟩ := h.exists_joined_table hj
      obtain rfl := Except.ok.inj (ht'.symm.trans ht)
      exact hsubset
  | @embedded v s t hs _ ih =>
      exact List.Subset.trans (ih (view_of_embeds hv hs)) (columnNames_subset_of_embeds hv hs)

/-- A view has the columns of the tables that are read for it, and no others. -/
theorem mem_columnNames_iff (hv : g.view o key = .ok v) {name : String} :
    name ∈ v.columnNames ↔ ∃ t, v.ReadsTable g o t ∧ name ∈ t.columnNames := by
  refine ⟨fun hname => ?_, fun ⟨t, ht, hname⟩ => columnNames_subset_of_readsTable hv ht hname⟩
  revert hname
  refine view_induction (motive := fun _ v =>
    name ∈ v.columnNames → ∃ t, v.ReadsTable g o t ∧ name ∈ t.columnNames) ?_ hv
  intro key table exposed parents v h hviews hname
  obtain ⟨c, hc, rfl⟩ := List.mem_map.mp hname
  obtain ⟨columns, hsupplies, k, hk, hcarried⟩ := h.wellScoped.columns_supplied c hc
  have hkname : k.carried.name = c.toColumn.carried.name := by rw [hcarried]
  generalize c.aliasName = x at hsupplies
  cases hsupplies with
  | base ht htable => exact ⟨_, .base ht htable, List.mem_map.mpr ⟨k, hk, hkname⟩⟩
  | join hj hreads =>
      cases hreads with
      | table hsource ht htable =>
          exact ⟨_, .join hj hsource ht htable, List.mem_map.mpr ⟨k, hk, hkname⟩⟩
      | view _ _ hmem _ =>
          obtain ⟨shown, hshown, rfl⟩ := List.mem_map.mp hk
          obtain ⟨t, ht, hname⟩ := hviews _ hmem (List.mem_map.mpr ⟨shown, hshown, hkname⟩)
          exact ⟨t, .embedded hmem ht, hname⟩

/-- The columns that a view joins on are among those that it shows. -/
theorem mem_select_columnNames_iff (hv : g.view o key = .ok v) {name : String} :
    name ∈ (Select.ofSchema v).columnNames ↔ name ∈ v.columnNames := by
  obtain ⟨_, _, _, h⟩ := exists_assembles hv
  have hjoins : ∀ j ∈ v.joins, j.keyColumn ∈ v.columnNames ∧ j.fkColumn ∈ v.columnNames := by
    intro j hj
    obtain ⟨t, ht, hsubset⟩ := h.exists_joined_table hj
    have hkey := (isTable_of_table_eq_ok ht).mem_columnNames_of_storesIdentifier
      (g.storesIdentifier_self o j.target)
    obtain ⟨hfk, hpk⟩ := h.columns_eq hj
    rw [hfk, hpk]
    exact ⟨hsubset hkey, hsubset hkey⟩
  have houtput : (Select.ofSchema v).output.map ColumnRef.column = v.columnNames :=
    List.map_map
  rw [Select.columnNames, houtput, List.mem_append, or_iff_left_iff_imp, List.mem_flatMap]
  rintro ⟨clause, hclause, hname⟩
  obtain ⟨j, hj, rfl⟩ := List.mem_map.mp hclause
  rcases List.mem_pair.mp hname with rfl | rfl
  · exact (hjoins j hj).1
  · exact (hjoins j hj).2

/-- Whether or not the embedded views are written out, the names are those of the view itself. -/
theorem mem_createView_columnNames_iff (hv : g.view o key = .ok v) (inlineViews : Bool)
    (name : String) :
    name ∈ (Statement.view (CreateView.ofSchema inlineViews v)).columnNames ↔
      name ∈ v.columnNames := by
  have hembedded : ∀ {s}, Relation.TransGen ViewSchema.Embeds v s →
      g.view o s.term = .ok s ∧ s.columnNames ⊆ v.columnNames := by
    intro s hreach
    induction hreach with
    | single hs => exact ⟨view_of_embeds hv hs, columnNames_subset_of_embeds hv hs⟩
    | tail _ hs ih =>
        exact ⟨view_of_embeds ih.1 hs,
          List.Subset.trans (columnNames_subset_of_embeds ih.1 hs) ih.2⟩
  rw [Statement.columnNames, List.mem_append]
  change _ ∨ name ∈ (Select.ofSchema v).columnNames ↔ _
  rw [mem_select_columnNames_iff hv, or_iff_right_iff_imp, List.mem_flatMap]
  rintro ⟨d, hd, hname⟩
  cases inlineViews with
  | false => cases hd
  | true =>
      obtain ⟨s, hs, rfl⟩ := List.mem_map.mp hd
      obtain ⟨hview, hsubset⟩ := hembedded (embeds_of_mem_embeddedViews hs)
      exact hsubset ((mem_select_columnNames_iff hview).mp hname)

end Graph

/-- Which column names the statement of a schema prints. A name is missing only where a view reads a
table that lacks it, and such a table gets no statement. -/
structure Schema.NamesColumns (g : Graph) (o : ResolutionOptions) (generator : Generator)
    (s : Schema) (statement : Statement) : Prop where
  printed_iff : ∀ name, name ∈ statement.columnNames ↔ name ∈ s.columnNames
  nameless_iff : "" ∈ statement.columnNames ↔
    ∃ v t, s = .view v ∧ v.ReadsTable g o t ∧ g.HasNamelessColumn o t.term
  refused : ∀ v t, s = .view v → v.ReadsTable g o t → g.HasNamelessColumn o t.term →
    ∃ c, generator.createTable t = .error (.faulty t.table [TableSchema.unnamedFault t.table c])

namespace Graph

variable {g : Graph} {o : ResolutionOptions} {key : Key} {s : Schema} {layer : Layer}
  {t : TableSchema} {v : ViewSchema} {generator : Generator} {text : String}

theorem namesColumns_table {c : CreateTable} (hc : CreateTable.ofSchema generator.types t = .ok c)
    (hnamed : "" ∉ t.columnNames) : (Schema.table t).NamesColumns g o generator (.table c) where
  printed_iff := mem_createTable_columnNames_iff hc
  nameless_iff := by
    rw [mem_createTable_columnNames_iff hc]
    exact ⟨fun hname => absurd hname hnamed, fun ⟨_, _, hsame, _⟩ => by cases hsame⟩
  refused := by
    intro _ _ hsame
    cases hsame

theorem namesColumns_view (hv : g.view o key = .ok v) : (Schema.view v).NamesColumns g o generator
    (.view (CreateView.ofSchema generator.inlineViews v)) where
  printed_iff := mem_createView_columnNames_iff hv generator.inlineViews
  nameless_iff := by
    rw [mem_createView_columnNames_iff hv, mem_columnNames_iff hv]
    constructor
    · rintro ⟨t, ht, hname⟩
      exact ⟨v, t, rfl, ht, (isTable_of_readsTable ht).nameless_iff.mp hname⟩
    · rintro ⟨_, t, hsame, ht, hnameless⟩
      obtain rfl := Schema.view.inj hsame
      exact ⟨t, ht, (isTable_of_readsTable ht).nameless_iff.mpr hnameless⟩
  refused := by
    intro _ t _ ht hnameless
    have htable := isTable_of_readsTable ht
    obtain ⟨c, hc⟩ := htable.exists_faults_eq (htable.nameless_iff.mpr hnameless)
    refine ⟨c, ?_⟩
    rw [← hc]
    exact (Generator.table_eq_error (hc ▸ List.cons_ne_nil _ _)).1

/-- The statement of a term prints the columns of its schema, all of which have names unless it is
the statement of a view that reads a table of which one has none. -/
theorem statement_namesColumns (hs : g.schema o layer key = .ok s)
    (h : generator.create s = .ok text) : ∃ statement, generator.statement s = .ok statement ∧
      text = statement.render ∧ s.NamesColumns g o generator statement := by
  obtain ⟨statement, hstatement, htext⟩ := Generator.exists_statement h
  refine ⟨statement, hstatement, htext, ?_⟩
  cases layer with
  | physical =>
      obtain ⟨t, -, rfl⟩ := exists_of_map_eq_ok hs
      obtain ⟨c, hc, rfl⟩ := exists_of_map_eq_ok hstatement
      refine namesColumns_table hc fun hname => ?_
      obtain ⟨column, hcolumn, hempty⟩ := List.mem_map.mp hname
      exact (Generator.isExpressible_of_create h).wellFormed.names_ne column hcolumn hempty
  | logical =>
      obtain ⟨v, hv, rfl⟩ := exists_of_map_eq_ok hs
      obtain rfl := Except.ok.inj hstatement
      exact namesColumns_view hv

/-- Nothing is left of the name of the currency in snake case. -/
def euroTerms : List Term := [
  ⟨"€", "Money.", some "Decimal", none, [⟨.primitiveType, "€", "Decimal", some 3⟩], some 1⟩,
  ⟨"Item", "A thing.", none, none, [⟨.composes, "Item", "€", some 7⟩], some 5⟩]

def euro : Graph :=
  .ofTerms (.ofNames builtInPrimitives) euroTerms

theorem build_euroTerms : build (.ofNames builtInPrimitives) euroTerms = .ok euro := by
  rfl

def itemText : String :=
  "CREATE VIEW logical_item AS\nSELECT\n    t0.item_id AS item_id,\n" ++
    "    t0.\"\" AS \"\"\nFROM physical_item AS t0;\n"

theorem exists_item_view : ∃ v, euro.schema .standard .logical "item" = .ok (.view v) ∧
    (Select.ofSchema v).columnNames = ["item_id", ""] ∧
    Generator.builtIn.create (.view v) = .ok itemText := by
  have hview : (euro.view .standard "item").map (fun v => (Select.ofSchema v).columnNames) =
      .ok ["item_id", ""] := by decide +kernel
  have htext : ((euro.view .standard "item").toOption.bind fun v =>
      (Generator.builtIn.create (.view v)).toOption) = some itemText := by decide +kernel
  obtain ⟨v, hv, hnames⟩ := exists_of_map_eq_ok hview
  rw [hv] at htext
  exact ⟨v, by rw [schema, hv]; rfl, hnames, eq_ok_of_toOption_eq_some htext⟩

theorem item_namesColumns : ∃ v statement,
    euro.schema .standard .logical "item" = .ok (.view v) ∧
    Generator.builtIn.create (.view v) = .ok itemText ∧
    Generator.builtIn.statement (.view v) = .ok statement ∧ itemText = statement.render ∧
    (Schema.view v).NamesColumns euro .standard .builtIn statement := by
  obtain ⟨v, hv, -, htext⟩ := exists_item_view
  obtain ⟨statement, hstatement, hrender, hnames⟩ := statement_namesColumns hv htext
  exact ⟨v, statement, hv, htext, hstatement, hrender, hnames⟩

/-- The statement for the view of an item prints a column without a name. -/
theorem item_printsNameless : ∃ g s text statement,
    build (.ofNames builtInPrimitives) euroTerms = .ok g ∧
    g.schema .standard .logical "item" = .ok s ∧ Generator.builtIn.create s = .ok text ∧
    Generator.builtIn.statement s = .ok statement ∧ text = statement.render ∧
    "" ∈ statement.columnNames := by
  obtain ⟨v, hv, hnames, htext⟩ := exists_item_view
  refine ⟨euro, .view v, itemText, _, build_euroTerms, hv, htext, rfl, ?_, ?_⟩
  · exact (Generator.eq_of_createView_eq_ok htext).trans (v.render_ofSchema _).symm
  · refine List.mem_append_right _ ?_
    change "" ∈ (Select.ofSchema v).columnNames
    simp [hnames]

end Graph

end Glossary
