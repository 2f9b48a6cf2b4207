import Glossary.Proofs.Attributes
import Glossary.Proofs.Generation
import Glossary.Proofs.IntegrityChecks
import Glossary.Proofs.Lookups
import Glossary.Proofs.OrphanRows
import Glossary.Proofs.Strictness

/-!
What the assertions of a script refer to. Those that are about the values of one column refer to the
table or view of the script itself. The integrity assertions follow the statements of the terms:
they read a column of the script's own object, or of the table of the term that makes the statement,
and they look its values up in the identifier of the target.
-/

namespace Glossary

open Fallible Sql

/-- A statement that a column or a join stands for: the term that makes it, its target and its
relation. -/
abbrev StatementEdge := Key × Key × Relation

/-- The name of the table or view. -/
def Schema.object : Schema → String
  | .table s => s.table
  | .view s => s.view

/-- The statements that the joins of a view follow, each once, in order of first occurrence; those
of `is a` come last. -/
def ViewSchema.integrityEdges (v : ViewSchema) : List StatementEdge :=
  ((v.joins.filter fun j => j.relation == .composes || j.relation == .requires).map
      Join.edge).eraseDups ++
    ((v.joins.filter fun j => j.relation == .inherits).map Join.edge).eraseDups

namespace Sql

/-- The rule that values of a column for such a statement have to keep. -/
def integrityRule : Relation → String
  | .inherits => "inheritance_integrity"
  | _ => "referential_integrity"

def Assertion.isIntegrity (a : Assertion) : Bool :=
  a.rule == "referential_integrity" || a.rule == "inheritance_integrity"

/-- The assertion refers to an object with columns of these names and to nothing else. -/
def Assertion.IsOwn (object : String) (names : List String) (a : Assertion) : Prop :=
  match a.check with
  | .hasRows source => source = object
  | .notNull source column => source = object ∧ column ∈ names
  | .unique source column => source = object ∧ column ∈ names
  | .noneSatisfies source column _ => source = object ∧ column ∈ names
  | .existsIn _ _ _ _ => False

end Sql

namespace Graph

/-- The statements that the columns of a table stand for. -/
def IsTableEdge (g : Graph) (key : Key) (e : StatementEdge) : Prop :=
  e.1 = key ∧ ((∃ l ∈ g.references key, l.target = e.2.1 ∧ l.relation = e.2.2) ∨
    e.2.1 ∈ g.ancestors key ∧ e.2.2 = .inherits)

/-- The assertion reads a column that its source has, and looks the values up in the identifier of
the target. The source is an object with columns of the given names, or the table of the term that
makes the statement. -/
structure AssertsEdge (g : Graph) (o : ResolutionOptions) (object : String) (names : List String)
    (e : StatementEdge) (a : Assertion) : Prop where
  rule_eq : a.rule = integrityRule e.2.2
  target_declared : g.declares e.2.1 = true
  check_eq : ∃ source column, a.check = .existsIn source column (Name.table (g.label e.2.1))
      (g.identifierColumn o e.2.1).name ∧
    (source = object ∧ column ∈ names ∨
      ∃ t, g.table o e.1 = .ok t ∧ source = t.table ∧ column ∈ t.columnNames)

/-- The term has a table, with the name and the identifier by which assertions refer to it. -/
def HasTable (g : Graph) (o : ResolutionOptions) (key : Key) : Prop :=
  ∃ t c, g.table o key = .ok t ∧ t.table = Name.table (g.label key) ∧ t.identifier? = some c ∧
    c.name = (g.identifierColumn o key).name

/-- What keeps the target of a statement of a term from a table of its own. -/
def LacksTable (g : Graph) (o : ResolutionOptions) (e : StatementEdge) : Prop :=
  e.2.2 ≠ .inherits ∧ g.ReachesCycle e.2.1 ∨ o.strict = true ∧ Refuses (g.table o e.2.1)

/-- The integrity assertions of a script. In that of a view there is one for each statement that its
joins follow, in this order, and all targets have tables. -/
def AssertsEdges (g : Graph) (o : ResolutionOptions) (key : Key) (script : Script) :
    Schema → Prop
  | .table t => ∀ a ∈ script.assertions, a.isIntegrity = true →
      ∃ e, g.IsTableEdge key e ∧ g.AssertsEdge o t.table t.columnNames e a ∧
        (g.HasTable o e.2.1 ∨ g.LacksTable o e)
  | .view v => List.Forall₂
      (fun e a => g.AssertsEdge o v.view v.columnNames e a ∧ g.HasTable o e.2.1)
      v.integrityEdges (script.assertions.filter Assertion.isIntegrity)

/-- All that a script refers to is there. -/
structure Grounds (g : Graph) (o : ResolutionOptions) (key : Key) (schema : Schema)
    (script : Script) : Prop where
  object_eq : script.object = schema.object
  own : ∀ a ∈ script.assertions, a.isIntegrity = false →
    a.IsOwn schema.object schema.columnNames
  integrity : g.AssertsEdges o key script schema

end Graph

section Edges

theorem map_edge_distinctEdges (seen : List StatementEdge) (js : List Join) :
    (ViewSchema.distinctEdges seen js).map Join.edge =
      ((js.map Join.edge).filter fun e => e ∉ seen).eraseDups := by
  induction js generalizing seen with
  | nil => rfl
  | cons j js ih =>
      rw [ViewSchema.distinctEdges, List.map_cons]
      by_cases hseen : j.edge ∈ seen
      · rw [if_pos hseen, ih, List.filter_cons_of_neg (by simpa using hseen)]
      · rw [if_neg hseen, List.map_cons, ih, List.filter_cons_of_pos (by simpa using hseen),
          List.eraseDups_cons, List.filter_filter]
        congr 2
        apply List.filter_congr
        intro e _
        rw [Bool.eq_iff_iff]
        simp [not_or]

theorem ViewSchema.integrityEdges_eq (v : ViewSchema) :
    v.integrityEdges = v.referenceJoins.map Join.edge ++ v.inheritanceJoins.map Join.edge := by
  have hdistinct : ∀ js : List Join,
      (js.map Join.edge).eraseDups = (distinctEdges [] js).map Join.edge := by
    intro js
    rw [map_edge_distinctEdges]
    simp
  unfold integrityEdges referenceJoins inheritanceJoins
  rw [hdistinct, hdistinct]

end Edges

namespace Sql

section Shapes

variable {script : Script} {object identifier : String} {required columns : List String}
  {integrity : List Assertion} {a : Assertion}

theorem Assertion.IsAbout.isIntegrity_eq_false (h : a.IsAbout object identifier required columns) :
    a.isIntegrity = false := by
  simp [isIntegrity, h.not_reference, h.not_inheritance]

theorem Assertion.IsAbout.isOwn (h : a.IsAbout object identifier required columns)
    (hidentifier : identifier ∈ columns) (hrequired : required ⊆ columns) :
    a.IsOwn object columns := by
  unfold IsOwn
  rcases h.check_eq with heq | heq | ⟨name, hname, heq⟩ | ⟨name, hname, predicate, heq⟩
  · rw [heq]
  · rw [heq]
    exact ⟨rfl, hidentifier⟩
  · rw [heq]
    exact ⟨rfl, List.cons_subset.mpr ⟨hidentifier, hrequired⟩ hname⟩
  · rw [heq]
    exact ⟨rfl, hname⟩

/-- The integrity assertions of the script are these, and all others are about its own object. -/
structure Script.Asserts (script : Script) (object : String) (columns : List String)
    (integrity : List Assertion) : Prop where
  object_eq : script.object = object
  filter_eq : script.assertions.filter Assertion.isIntegrity = integrity
  isOwn : ∀ a ∈ script.assertions, a.isIntegrity = false → a.IsOwn object columns

theorem Script.Consists.asserts (h : script.Consists object identifier required columns integrity)
    (hintegrity : ∀ a ∈ integrity, a.isIntegrity = true) (hidentifier : identifier ∈ columns)
    (hrequired : required ⊆ columns) : script.Asserts object columns integrity where
  object_eq := h.object_eq
  filter_eq := by
    obtain ⟨before, after, hsplit, hothers⟩ := h.assertions_eq
    rw [List.forall_mem_append] at hothers
    have hnone : ∀ as : List Assertion,
        (∀ a ∈ as, a.IsAbout object identifier required columns) →
        as.filter Assertion.isIntegrity = [] := by
      intro as has
      apply List.filter_eq_nil_iff.mpr
      intro a ha
      simp [(has a ha).isIntegrity_eq_false]
    rw [hsplit, List.filter_append, List.filter_append, hnone before hothers.1,
      hnone after hothers.2, List.filter_eq_self.mpr hintegrity, List.nil_append, List.append_nil]
  isOwn := by
    intro a ha hother
    rcases h.mem_or_isAbout ha with hmem | habout
    · cases (hintegrity a hmem).symm.trans hother
    · exact habout.isOwn hidentifier hrequired

theorem isIntegrity_of_mem {α : Type} {xs ys : List α} {f f' : α → Assertion}
    (hf : ∀ x, (f x).isIntegrity = true) (hf' : ∀ x, (f' x).isIntegrity = true) :
    ∀ a ∈ xs.map f ++ ys.map f', a.isIntegrity = true := by
  simp only [List.mem_append, List.mem_map]
  rintro a (⟨x, -, rfl⟩ | ⟨x, -, rfl⟩)
  · exact hf x
  · exact hf' x

theorem Script.asserts_ofTable {ranges : RangeTable} {s : TableSchema}
    (h : Script.ofTable ranges s = .ok script) :
    script.Asserts s.table s.columnNames
      ((s.columns.tail.filter fun c => c.role == .reference).map
          (columnAssertion "referential_integrity" s) ++
        (s.columns.tail.filter fun c => c.role == .inheritedIdentifier).map
          (columnAssertion "inheritance_integrity" s)) := by
  obtain ⟨identifier, rest, hcons, hconsists⟩ := Script.consists_ofTable h
  have hnames : s.columnNames = identifier.name :: rest.map Column.name := by
    rw [TableSchema.columnNames, hcons, List.map_cons]
  rw [hcons, List.tail_cons]
  apply hconsists.asserts (isIntegrity_of_mem (fun _ => rfl) fun _ => rfl)
  · rw [hnames]
    exact List.mem_cons_self
  · rw [hnames]
    exact List.subset_cons_of_subset _ (List.map_subset _ (List.filter_subset_self _))

theorem Script.asserts_ofView {ranges : RangeTable} {s : ViewSchema}
    (h : Script.ofView ranges s = .ok script) :
    script.Asserts s.view s.columnNames
      (s.referenceJoins.map (joinAssertion "referential_integrity" s) ++
        s.inheritanceJoins.map (joinAssertion "inheritance_integrity" s)) := by
  obtain ⟨identifier, rest, hcons, hconsists⟩ := Script.consists_ofView h
  have hnames : s.columnNames = identifier.name :: rest.map fun c => c.name := by
    rw [ViewSchema.columnNames, hcons, List.map_cons]
  apply hconsists.asserts (isIntegrity_of_mem (fun _ => rfl) fun _ => rfl)
  · rw [hnames]
    exact List.mem_cons_self
  · rw [hnames]
    exact List.subset_cons_of_subset _ (List.map_subset _ (List.filter_subset_self _))

end Shapes

end Sql

namespace Graph

variable {primitives : Primitives} {terms : List Term} {g : Graph} {o : ResolutionOptions}
  {key : Key}

theorem hasTable_of_table_eq_ok {t : TableSchema} (h : g.table o key = .ok t) :
    g.HasTable o key := by
  have htable := isTable_of_table_eq_ok h
  exact ⟨t, _, h, htable.table_eq, htable.identifier_eq, rfl⟩

theorem hasTable_or_lacks (g : Graph) (o : ResolutionOptions) (key : Key) :
    g.HasTable o key ∨ g.ReachesCycle key ∨ o.strict = true ∧ Refuses (g.table o key) := by
  cases h : g.table o key with
  | ok t => exact Or.inl (hasTable_of_table_eq_ok h)
  | error e =>
      obtain ⟨type, strict⟩ := o
      cases strict with
      | false => exact Or.inr (Or.inl (table_eq_error rfl h).1)
      | true =>
          rcases table_does g type key with heq | hrefuses
          · exact Or.inr (Or.inl (table_eq_error rfl (heq.symm.trans h)).1)
          · exact Or.inr (Or.inr ⟨rfl, h ▸ hrefuses⟩)

section Views

variable {table : TableSchema} {exposed parents : List Attachment} {v : ViewSchema} {j : Join}

theorem Assembles.assertsEdge (h : g.Assembles o key table exposed parents v)
    (hg : build primitives terms = .ok g) (hj : j ∈ v.joins) {rule : String}
    (hrule : rule = integrityRule j.relation) :
    g.AssertsEdge o v.view v.columnNames j.edge (joinAssertion rule v j) where
  rule_eq := hrule
  target_declared := h.declares_target hg hj
  check_eq := by
    obtain ⟨htarget, hparent⟩ := h.labels_eq hj
    have hkey := (h.columns_eq hj).2
    by_cases hshows : v.Shows j
    · refine ⟨v.view, j.fkColumn, ?_, Or.inl ⟨rfl, ?_⟩⟩
      · rw [check_joinAssertion_of_shows hshows, htarget, hkey]
        rfl
      · obtain ⟨c, hc, -⟩ := hshows
        have hname : c.name = j.fkColumn := by simpa using List.find?_some hc
        exact List.mem_map.mpr ⟨c, List.mem_of_find?_eq_some hc, hname⟩
    · -- a column that the view does not show is read from the table that the join hangs from
      obtain ⟨n, hn⟩ := List.mem_iff_getElem?.mp hj
      obtain ⟨t, ht, -, hmem⟩ := h.wellScoped.joins_hang n j hn
      refine ⟨t.table, j.fkColumn, ?_, Or.inr ⟨t, ht, rfl, hmem⟩⟩
      rw [check_joinAssertion_of_not_shows hshows, htarget, hkey, hparent,
        (isTable_of_table_eq_ok ht).table_eq]
      rfl

theorem Assembles.assertsEdges (h : g.Assembles o key table exposed parents v)
    (hg : build primitives terms = .ok g) {ranges : RangeTable} {script : Script}
    (hscript : Script.ofView ranges v = .ok script) :
    g.AssertsEdges o key script (.view v) := by
  have hjoins : ∀ (rule : String) (js : List Join),
      (∀ j ∈ js, j ∈ v.joins ∧ rule = integrityRule j.relation) →
      List.Forall₂ (fun e a => g.AssertsEdge o v.view v.columnNames e a ∧ g.HasTable o e.2.1)
        (js.map Join.edge) (js.map (joinAssertion rule v)) := by
    intro rule js hjs
    rw [List.forall₂_map_left_iff, List.forall₂_map_right_iff, List.forall₂_same]
    intro j hj
    obtain ⟨hmem, hrule⟩ := hjs j hj
    obtain ⟨t, ht, -⟩ := h.exists_joined_table hmem
    exact ⟨h.assertsEdge hg hmem hrule, hasTable_of_table_eq_ok ht⟩
  rw [AssertsEdges, (Script.asserts_ofView hscript).filter_eq, v.integrityEdges_eq]
  apply List.rel_append
  · apply hjoins
    intro j hj
    obtain ⟨hmem, hrelation⟩ := List.mem_filter.mp (distinctEdges_subset _ _ hj)
    rw [Bool.or_eq_true, beq_iff_eq, beq_iff_eq] at hrelation
    rcases hrelation with hrelation | hrelation
    · rw [hrelation]
      exact ⟨hmem, rfl⟩
    · rw [hrelation]
      exact ⟨hmem, rfl⟩
  · apply hjoins
    intro j hj
    obtain ⟨hmem, hrelation⟩ := List.mem_filter.mp (distinctEdges_subset _ _ hj)
    rw [beq_iff_eq.mp hrelation]
    exact ⟨hmem, rfl⟩

end Views

section Tables

variable {t : TableSchema} {c : Column}

theorem exists_reference (ht : g.table o key = .ok t) (hc : c ∈ t.columns)
    (hrole : c.role = .reference) :
    ∃ l ∈ g.references key, c = g.referenceColumn o l ∧ g.isScalar l.target = false := by
  have hcontributed := (isTable_of_table_eq_ok ht).contributed c hc
  simp only [contributions, List.mem_cons, List.mem_append, List.mem_map] at hcontributed
  rcases hcontributed with rfl | ⟨ancestor, -, rfl⟩ | ⟨l, hl, rfl⟩
  · cases hrole
  · cases hrole
  · refine ⟨l, hl, rfl, ?_⟩
    cases hscalar : g.isScalar l.target with
    | false => rfl
    | true => simp [referenceColumn, hscalar] at hrole

theorem exists_ancestor (ht : g.table o key = .ok t) (hc : c ∈ t.columns)
    (hrole : c.role = .inheritedIdentifier) :
    ∃ ancestor ∈ g.ancestors key, c = g.inheritedColumn o ancestor := by
  have hcontributed := (isTable_of_table_eq_ok ht).contributed c hc
  simp only [contributions, List.mem_cons, List.mem_append, List.mem_map] at hcontributed
  rcases hcontributed with rfl | ⟨ancestor, hancestor, rfl⟩ | ⟨l, -, rfl⟩
  · cases hrole
  · exact ⟨ancestor, hancestor, rfl⟩
  · cases hscalar : g.isScalar l.target with
    | false => simp [referenceColumn, hscalar] at hrole
    | true => simp [referenceColumn, hscalar] at hrole

/-- A target that is no value is no primitive type either, so that it is a term. -/
theorem declares_of_reference (hg : build primitives terms = .ok g) {l : Link}
    (hl : l ∈ g.references key) (hscalar : g.isScalar l.target = false) :
    g.declares l.target = true := by
  obtain ⟨rfl, haccepts⟩ := build_eq_ok_iff.mp hg
  have hrefers : (ofTerms primitives terms).RefersTo key l.target :=
    Or.inl ⟨l, List.mem_of_mem_filter hl, rfl⟩
  rcases haccepts.declared_or_primitive hrefers with hdeclared | hprimitive
  · exact hdeclared
  · have htyped : ((ofTerms primitives terms).primitiveType? l.target).isSome = true :=
      haccepts.primitiveType?_isSome (Or.inr hprimitive)
    cases htyped.symm.trans hscalar

/-- The integrity assertion of a column, whatever statement the column stands for. -/
theorem assertsEdge_columnAssertion {e : StatementEdge} {rule : String} (hc : c ∈ t.columns)
    (hname : c.name = (g.identifierColumn o e.2.1).name) (hlabel : c.label = g.label e.2.1)
    (hdeclared : g.declares e.2.1 = true) (hrule : rule = integrityRule e.2.2) :
    g.AssertsEdge o t.table t.columnNames e (columnAssertion rule t c) where
  rule_eq := hrule
  target_declared := hdeclared
  check_eq := by
    refine ⟨t.table, c.name, ?_, Or.inl ⟨rfl, List.mem_map_of_mem hc⟩⟩
    rw [columnAssertion, hlabel, ← hname]

theorem assertsEdges_table (hg : build primitives terms = .ok g) (hkey : g.declares key = true)
    (ht : g.table o key = .ok t) {ranges : RangeTable} {script : Script}
    (hscript : Script.ofTable ranges t = .ok script) : g.AssertsEdges o key script (.table t) := by
  intro a ha hintegrity
  have hmem := List.mem_filter.mpr ⟨ha, hintegrity⟩
  rw [(Script.asserts_ofTable hscript).filter_eq] at hmem
  simp only [List.mem_append, List.mem_map, List.mem_filter, beq_iff_eq] at hmem
  rcases hmem with ⟨c, ⟨hc, hrole⟩, rfl⟩ | ⟨c, ⟨hc, hrole⟩, rfl⟩
  · have hc := List.mem_of_mem_tail hc
    obtain ⟨l, hl, rfl, hscalar⟩ := exists_reference ht hc hrole
    have hrelation : l.relation = .composes ∨ l.relation = .requires := by
      simpa using List.of_mem_filter hl
    refine ⟨(key, l.target, l.relation), ⟨rfl, Or.inl ⟨l, hl, rfl, rfl⟩⟩, ?_, ?_⟩
    · refine assertsEdge_columnAssertion hc rfl rfl (declares_of_reference hg hl hscalar) ?_
      rcases hrelation with hrelation | hrelation
      · rw [hrelation]
        rfl
      · rw [hrelation]
        rfl
    · have hne : l.relation ≠ .inherits := by
        rcases hrelation with hrelation | hrelation
        · simp [hrelation]
        · simp [hrelation]
      exact (hasTable_or_lacks g o l.target).imp_right (Or.imp_left fun hcycle => ⟨hne, hcycle⟩)
  · have hc := List.mem_of_mem_tail hc
    obtain ⟨ancestor, hancestor, rfl⟩ := exists_ancestor ht hc hrole
    have hreach : Relation.ReflTransGen g.Inherits key ancestor :=
      eq_or_mem_ancestors_iff.mp (Or.inr hancestor)
    refine ⟨(key, ancestor, .inherits), ⟨rfl, Or.inr ⟨hancestor, rfl⟩⟩, ?_, ?_⟩
    · exact assertsEdge_columnAssertion hc rfl rfl (declares_of_reflTransGen hg hreach hkey) rfl
    · -- a cycle above an ancestor would be one above the term, which has a table
      refine (hasTable_or_lacks g o ancestor).imp_right fun hlacks => Or.inr ?_
      exact hlacks.resolve_left fun hcycle =>
        (isTable_of_table_eq_ok ht).acyclic (hcycle.of_reflTransGen hreach)

end Tables

/-- The built-in ranges can always be asserted. -/
theorem exists_uncheckedScript {layer : Layer} {schema : Schema}
    (h : g.schema o layer key = .ok schema) {generator : Generator}
    (hranges : generator.ranges = .builtIn) :
    ∃ script, generator.uncheckedScript schema = .ok script := by
  have hcolumns := columns_ne_nil h
  cases schema with
  | table t =>
      obtain ⟨script, hscript⟩ := exists_ofTable hcolumns
      exact ⟨script, by rw [Generator.uncheckedScript, hranges, hscript]⟩
  | view v =>
      obtain ⟨script, hscript⟩ := exists_ofView fun hnil =>
        hcolumns (List.map_eq_nil_iff.mpr hnil)
      exact ⟨script, by rw [Generator.uncheckedScript, hranges, hscript]⟩

theorem uncheckedScript_eq_ok {generator : Generator} {schema : Schema} {script : Script}
    (h : generator.script schema = .ok script) : generator.uncheckedScript schema = .ok script := by
  cases schema with
  | table t =>
      obtain ⟨-, -, h⟩ := bind_eq_ok_iff.mp h
      exact (bind_eq_ok_iff.mp h).choose_spec.2
  | view v =>
      obtain ⟨-, -, h⟩ := bind_eq_ok_iff.mp h
      exact (bind_eq_ok_iff.mp h).choose_spec.2

/-- Every assertion of a script of a term refers to what is there: its own object and the columns of
this, or the tables and identifiers of the statements of the term. Only the target of a column of a
table may lack a table of its own; a view joins no such target. -/
theorem script_isGrounded (hg : build primitives terms = .ok g) (hkey : g.declares key = true)
    {layer : Layer} {schema : Schema} (h : g.schema o layer key = .ok schema)
    (generator : Generator) :
    (generator.ranges = .builtIn → ∃ script, generator.uncheckedScript schema = .ok script) ∧
      (∀ script, generator.script schema = .ok script →
        generator.uncheckedScript schema = .ok script) ∧
      ∀ script, generator.uncheckedScript schema = .ok script → g.Grounds o key schema script := by
  refine ⟨exists_uncheckedScript h, fun script => uncheckedScript_eq_ok, fun script hscript => ?_⟩
  cases layer with
  | physical =>
      obtain ⟨t, ht, rfl⟩ := exists_of_map_eq_ok h
      have hasserts := Script.asserts_ofTable hscript
      exact ⟨hasserts.object_eq, hasserts.isOwn, assertsEdges_table hg hkey ht hscript⟩
  | logical =>
      obtain ⟨v, hv, rfl⟩ := exists_of_map_eq_ok h
      obtain ⟨table, exposed, parents, hassembles⟩ := exists_assembles hv
      have hasserts := Script.asserts_ofView hscript
      exact ⟨hasserts.object_eq, hasserts.isOwn, hassembles.assertsEdges hg hscript⟩

end Graph

theorem manager_isGrounded : ∃ v script,
    Graph.build (Primitives.ofNames builtInPrimitives) staffTerms = .ok staff ∧
      staff.declares "manager" = true ∧
      staff.schema .standard .logical "manager" = .ok (.view v) ∧
      standardGenerator.script (.view v) = .ok script ∧
      staff.Grounds .standard "manager" (.view v) script := by
  obtain ⟨v, hv, hvalues⟩ := exists_of_map_eq_ok staff_manager_script
  obtain ⟨script, hscript, -⟩ := Option.map_eq_some_iff.mp (Prod.mk.inj hvalues).2
  have hscript : standardGenerator.script (.view v) = .ok script :=
    eq_ok_of_toOption_eq_some hscript
  have hschema : staff.schema .standard .logical "manager" = .ok (.view v) :=
    congrArg (Except.map Schema.view) hv
  have hdeclared : staff.declares "manager" = true := by decide +kernel
  obtain ⟨-, hunchecked, hgrounds⟩ :=
    Graph.script_isGrounded build_staffTerms hdeclared hschema standardGenerator
  exact ⟨v, script, build_staffTerms, hdeclared, hschema, hscript,
    hgrounds script (hunchecked script hscript)⟩

/-- A party and a person inherit from each other, and an account must have a party. -/
def entwinedTerms : List Term := [
  ⟨"Party", "Anyone we deal with.", none, none, [⟨.inherits, "Party", "Person", none⟩], none⟩,
  ⟨"Person", "A human being.", none, none, [⟨.inherits, "Person", "Party", none⟩], none⟩,
  ⟨"Account", "What is owned.", none, none, [⟨.requires, "Account", "Party", none⟩], none⟩]

def entwined : Graph :=
  Graph.ofTerms (Primitives.ofNames builtInPrimitives) entwinedTerms

theorem entwined_account_script :
    (entwined.table .standard "account").map (fun t =>
      (standardGenerator.tableScript t).toOption.map fun script =>
        script.assertions.any fun a => a.rule == "referential_integrity" &&
          a.check == .existsIn "physical_account" "party_id" "physical_party" "party_id") =
      .ok (some true) ∧
    (entwined.table .standard "party").map (fun t => t.table) =
      .error (.cyclicInheritance "Party" ["Party", "Person", "Party"]) ∧
    entwined.keys.all (fun key => (entwined.table .standard key).toOption.all
      fun t => t.table != "physical_party") = true := by
  decide +kernel

/-- The accounts are asserted to have parties, which have no table. -/
theorem account_party_hasNoTable :
    ∃ t script a, Graph.build (Primitives.ofNames builtInPrimitives) entwinedTerms = .ok entwined ∧
      entwined.table .standard "account" = .ok t ∧
      standardGenerator.script (.table t) = .ok script ∧ a ∈ script.assertions ∧
      a.rule = "referential_integrity" ∧
      a.check = .existsIn "physical_account" "party_id" "physical_party" "party_id" ∧
      entwined.table .standard "party" =
        .error (.cyclicInheritance "Party" ["Party", "Person", "Party"]) ∧
      ∀ key ∈ entwined.keys, ∀ t', entwined.table .standard key = .ok t' →
        t'.table ≠ "physical_party" := by
  obtain ⟨haccount, hparty, hothers⟩ := entwined_account_script
  obtain ⟨t, ht, hvalues⟩ := exists_of_map_eq_ok haccount
  obtain ⟨script, hscript, hany⟩ := Option.map_eq_some_iff.mp hvalues
  obtain ⟨a, ha, hcheck⟩ := List.any_eq_true.mp hany
  rw [Bool.and_eq_true, beq_iff_eq, beq_iff_eq] at hcheck
  refine ⟨t, script, a, rfl, ht, eq_ok_of_toOption_eq_some hscript, ha, hcheck.1, hcheck.2,
    map_eq_error_iff.mp hparty, ?_⟩
  intro key hkey t' ht'
  have hother := List.all_eq_true.mp hothers key hkey
  rw [ht'] at hother
  exact bne_iff_ne.mp hother

end Glossary
