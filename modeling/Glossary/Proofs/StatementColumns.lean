import Mathlib.Data.List.Find
import Glossary.Graph.Build
import Glossary.Proofs.Scripts
import Glossary.Proofs.Table

/-!
What the table of a term makes of the things that the term has and must have. The column of a
statement gives way to any earlier column for the same term: to the identifier of the term itself,
to the identifier of an ancestor, or to the column of an earlier statement. The null check and the
reference check of the statement are lost with it, and no anomaly tells of that.
-/

namespace Glossary

open Fallible

namespace Sql

/-- The statement that creates a table forbids null in the column of this name. -/
def CreateTable.ForbidsNull (statement : CreateTable) (name : String) : Prop :=
  ∃ d ∈ statement.columns, d.name = name ∧ d.required = true

theorem map_columns_of_ofSchema {types : TypeMap} {s : TableSchema} {statement : CreateTable}
    (h : CreateTable.ofSchema types s = .ok statement) :
    (statement.columns.map fun d => (d.name, d.required)) =
      s.columns.map fun c => (c.name, c.required) := by
  have hcolumn : ∀ {isKey : Bool} {c : Column} {d : ColumnDefinition},
      ColumnDefinition.ofColumn types s.table isKey c = .ok d →
      (d.name, d.required) = (c.name, c.required) := by
    intro isKey c d hd
    obtain ⟨sqlType, -, hd⟩ := bind_eq_ok_iff.mp hd
    obtain rfl := Except.ok.inj hd
    rfl
  unfold CreateTable.ofSchema at h
  split at h
  · rename_i hnil
    obtain rfl := Except.ok.inj h
    rw [hnil]
    rfl
  · rename_i identifier rest hcons
    obtain ⟨first, hfirst, h⟩ := bind_eq_ok_iff.mp h
    obtain ⟨others, hothers, h⟩ := bind_eq_ok_iff.mp h
    obtain rfl := Except.ok.inj h
    rw [hcons, List.map_cons, List.map_cons, hcolumn hfirst,
      map_eq_of_mapM_eq_ok hothers hcolumn]

theorem CreateTable.forbidsNull_iff {types : TypeMap} {s : TableSchema} {statement : CreateTable}
    (h : CreateTable.ofSchema types s = .ok statement) {name : String} :
    statement.ForbidsNull name ↔ ∃ c ∈ s.columns, c.name = name ∧ c.required = true := by
  have hmem : statement.ForbidsNull name ↔
      (name, true) ∈ statement.columns.map fun d => (d.name, d.required) := by
    simp [CreateTable.ForbidsNull]
  rw [hmem, map_columns_of_ofSchema h]
  simp

end Sql

namespace Graph

variable {g : Graph} {o : ResolutionOptions} {key target : Key} {t : TableSchema}

/-- The relation of the first statement about the target among those that the term has and must
have. -/
def firstRelation? (g : Graph) (key target : Key) : Option Relation :=
  ((g.references key).find? fun l => l.target == target).map Link.relation

theorem table_column?_eq (h : g.table o key = .ok t) (name : String) :
    t.column? name = (g.contributions o key).find? fun c => c.name == name := by
  obtain ⟨⟨⟩, -, h⟩ := bind_eq_ok_iff.mp h
  obtain ⟨d, hd, h⟩ := bind_eq_ok_iff.mp h
  obtain rfl := Except.ok.inj h
  exact Draft.addAll_find? hd name

theorem name_eq_of_mem_contributions {c : Column} (h : c ∈ g.contributions o key) :
    c.name = (g.identifierColumn o c.term).name := by
  simp only [contributions, List.mem_cons, List.mem_append, List.mem_map] at h
  rcases h with rfl | ⟨ancestor, -, rfl⟩ | ⟨l, -, rfl⟩
  · rfl
  · rfl
  · rfl

/-- Without anomalies, a name finds the first column that is contributed for its term. -/
theorem column?_eq_find?_term (ht : g.table o key = .ok t) (hissues : t.issues = [])
    (hstores : g.StoresIdentifier o key target) :
    t.column? (g.identifierColumn o target).name =
      (g.contributions o key).find? fun c => c.term == target := by
  have htable := isTable_of_table_eq_ok ht
  obtain ⟨s, hs, hsname, hsterm⟩ := hstores
  obtain ⟨k, hk, hkname, hkterm⟩ := htable.named s hs
  rw [table_column?_eq ht]
  apply List.find?_congr
  intro c hc
  apply Bool.eq_iff_iff.mpr
  rw [beq_iff_eq, beq_iff_eq]
  constructor
  · intro hname
    obtain ⟨k', hk', hkname', hkterm'⟩ := htable.named c hc
    have hsame : k' = k := by
      apply List.inj_on_of_nodup_map htable.nodup hk' hk
      rw [hkname', hname, hkname, hsname]
    rw [← hkterm' hissues, hsame, hkterm hissues, hsterm]
  · rintro rfl
    exact name_eq_of_mem_contributions hc

theorem contributions_find?_term (g : Graph) (o : ResolutionOptions) (key target : Key) :
    ((g.contributions o key).find? fun c => c.term == target) =
      if target = key then some (g.identifierColumn o key)
      else if target ∈ g.ancestors key then some (g.inheritedColumn o target)
      else ((g.references key).find? fun l => l.target == target).map (g.referenceColumn o) := by
  have hinherited : ∀ keys : List Key,
      ((keys.map (g.inheritedColumn o)).find? fun c => c.term == target) =
        if target ∈ keys then some (g.inheritedColumn o target) else none := by
    intro keys
    induction keys with
    | nil => rfl
    | cons k keys ih =>
        by_cases hk : k = target
        · simp [hk, inheritedColumn, identifierColumn]
        · simp [hk, Ne.symm hk, ih, inheritedColumn, identifierColumn]
  have hreferences : (((g.references key).map (g.referenceColumn o)).find? fun c =>
      c.term == target) =
        ((g.references key).find? fun l => l.target == target).map (g.referenceColumn o) := by
    rw [List.find?_map]
    rfl
  let p : Column → Bool := fun c => c.term == target
  by_cases hown : target = key
  · have hfirst : p (g.identifierColumn o key) = true := beq_iff_eq.mpr hown.symm
    rw [if_pos hown, contributions, List.find?_cons_of_pos (p := p) hfirst]
  · have hfirst : ¬ p (g.identifierColumn o key) = true := by
      simpa [p, identifierColumn] using Ne.symm hown
    rw [if_neg hown, contributions, List.find?_cons_of_neg (p := p) hfirst, List.find?_append,
      hinherited, hreferences]
    by_cases hancestor : target ∈ g.ancestors key
    · rw [if_pos hancestor, if_pos hancestor, Option.some_or]
    · rw [if_neg hancestor, if_neg hancestor, Option.none_or]

/-- What takes the place of the column of a statement: the identifier of the term itself, that of an
ancestor, or the column of the first statement about the same target. -/
theorem column?_identifier_cases (ht : g.table o key = .ok t) (hissues : t.issues = []) {l : Link}
    (hl : l ∈ g.references key) :
    ∃ c, t.column? (g.identifierColumn o l.target).name = some c ∧
      ((l.target = key ∧ c = g.identifierColumn o key) ∨
        (l.target ≠ key ∧ Relation.TransGen g.Inherits key l.target ∧
          c = g.inheritedColumn o l.target) ∨
        (l.target ≠ key ∧ ¬ Relation.TransGen g.Inherits key l.target ∧
          ∃ first : Link, first.target = l.target ∧
            g.firstRelation? key l.target = some first.relation ∧
            c = g.referenceColumn o first)) := by
  have hfind := column?_eq_find?_term ht hissues (storesIdentifier_of_mem_references o hl)
  rw [contributions_find?_term] at hfind
  by_cases hown : l.target = key
  · rw [if_pos hown] at hfind
    exact ⟨_, hfind, Or.inl ⟨hown, rfl⟩⟩
  rw [if_neg hown] at hfind
  by_cases hancestor : l.target ∈ g.ancestors key
  · rw [if_pos hancestor] at hfind
    exact ⟨_, hfind, Or.inr (Or.inl ⟨hown, (mem_ancestors_iff.mp hancestor).2, rfl⟩)⟩
  rw [if_neg hancestor] at hfind
  cases hfirst : (g.references key).find? fun l' => l'.target == l.target with
  | none =>
      have hne := List.find?_eq_none.mp hfirst l hl
      simp at hne
  | some first =>
      rw [hfirst] at hfind
      refine ⟨_, hfind, Or.inr (Or.inr ⟨hown, ?_, first, ?_, ?_, rfl⟩)⟩
      · intro htrans
        exact hancestor (mem_ancestors_iff.mpr ⟨hown, htrans⟩)
      · simpa using List.find?_some hfirst
      · rw [firstRelation?, hfirst, Option.map_some]

theorem isScalar_eq_false_of_isEntity (h : g.isEntity key = true) : g.isScalar key = false := by
  unfold isEntity at h
  unfold isScalar primitiveType?
  cases hentry : g.entry? key with
  | none => simp [hentry] at h
  | some e => simpa [hentry] using h

theorem checksReference_iff_role (ht : g.table o key = .ok t) {c : Column} (hc : c ∈ t.columns)
    {ranges : Sql.RangeTable} {script : Sql.Script} (h : Sql.Script.ofTable ranges t = .ok script) :
    script.ChecksReference c.name (Name.table c.label) ↔ c.role = .reference := by
  have htable := isTable_of_table_eq_ok ht
  obtain ⟨rest, hcons⟩ := List.head?_eq_some_iff.mp htable.identifier_eq
  constructor
  · rintro ⟨a, ha, hrule, hcheck⟩
    obtain ⟨k, hk, hrole, rfl⟩ := (Sql.Script.mem_references_iff h hrule).mp ha
    simp only [Sql.columnAssertion, Sql.Check.existsIn.injEq] at hcheck
    have hsame : k = c :=
      List.inj_on_of_nodup_map htable.nodup (List.mem_of_mem_tail hk) hc hcheck.2.1
    exact hsame ▸ hrole
  · intro hrole
    have htail : c ∈ t.columns.tail := by
      rw [hcons, List.tail_cons]
      rw [hcons] at hc
      rcases List.mem_cons.mp hc with rfl | hc
      · cases hrole
      · exact hc
    refine ⟨Sql.columnAssertion "referential_integrity" t c, ?_, rfl, ?_⟩
    · exact (Sql.Script.mem_references_iff h rfl).mpr ⟨c, htail, hrole, rfl⟩
    · rw [Sql.Script.object_eq h]
      rfl

/-- What becomes of a statement whose column is `c`. The column is required when it is the key, or
when the target is no ancestor and the first statement about it says `must have`. Its values are
checked against the table of an entity that is neither the term itself nor one of its ancestors. -/
structure StandsForStatement (g : Graph) (o : ResolutionOptions) (key : Key) (t : TableSchema)
    (l : Link) (c : Column) : Prop where
  column_eq : t.column? (g.identifierColumn o l.target).name = some c
  term_eq : c.term = l.target
  required_iff : c.required = true ↔ l.target = key ∨
    ¬ Relation.TransGen g.Inherits key l.target ∧ g.firstRelation? key l.target = some .requires
  forbidsNull_iff : ∀ (generator : Sql.Generator) (text : String),
    generator.createTable t = .ok text →
      ∃ statement, Sql.CreateTable.ofSchema generator.types t = .ok statement ∧
        text = statement.render ∧ (statement.ForbidsNull c.name ↔ c.required = true)
  checksReference_iff : g.isEntity l.target = true →
    ∀ (generator : Sql.Generator) (script : Sql.Script), generator.tableScript t = .ok script →
      (script.ChecksReference c.name (Name.table (g.label l.target)) ↔
        l.target ≠ key ∧ ¬ Relation.TransGen g.Inherits key l.target)

/-- Without anomalies every statement `has a` and `must have a` has a column for its target. -/
theorem exists_standsForStatement {g : Graph} {o : ResolutionOptions} {key : Key} {t : TableSchema}
    (ht : g.table o key = .ok t) (hissues : t.issues = []) {l : Link}
    (hl : l ∈ g.references key) : ∃ c, g.StandsForStatement o key t l c := by
  have htable := isTable_of_table_eq_ok ht
  obtain ⟨c, hcolumn, hcases⟩ := column?_identifier_cases ht hissues hl
  have hc : c ∈ t.columns := List.mem_of_find?_eq_some hcolumn
  have hcarried : c.term = l.target ∧ c.label = g.label l.target := by
    rcases hcases with ⟨hown, rfl⟩ | ⟨-, -, rfl⟩ | ⟨-, -, first, hfirst, -, rfl⟩
    · exact ⟨hown.symm, congrArg g.label hown.symm⟩
    · exact ⟨rfl, rfl⟩
    · exact ⟨hfirst, congrArg g.label hfirst⟩
  refine ⟨c, hcolumn, hcarried.1, ?_, ?_, ?_⟩
  · rcases hcases with ⟨hown, rfl⟩ | ⟨hne, htrans, rfl⟩ | ⟨hne, htrans, first, -, hrelation, rfl⟩
    · simp [hown, identifierColumn]
    · simp [hne, htrans, inheritedColumn]
    · simp [hne, htrans, hrelation, referenceColumn]
  · intro generator text htext
    obtain ⟨-, -, htext⟩ := bind_eq_ok_iff.mp htext
    obtain ⟨statement, hstatement, htext⟩ := bind_eq_ok_iff.mp htext
    refine ⟨statement, hstatement, (Except.ok.inj htext).symm, ?_⟩
    rw [Sql.CreateTable.forbidsNull_iff hstatement]
    constructor
    · rintro ⟨k, hk, hname, hrequired⟩
      have hsame : k = c := List.inj_on_of_nodup_map htable.nodup hk hc hname
      exact hsame ▸ hrequired
    · intro hrequired
      exact ⟨c, hc, rfl, hrequired⟩
  · intro hentity generator script hscript
    obtain ⟨-, -, hscript⟩ := bind_eq_ok_iff.mp hscript
    obtain ⟨-, -, hscript⟩ := bind_eq_ok_iff.mp hscript
    rw [← hcarried.2, checksReference_iff_role ht hc hscript]
    have hscalar := isScalar_eq_false_of_isEntity hentity
    rcases hcases with ⟨hown, rfl⟩ | ⟨hne, htrans, rfl⟩ | ⟨hne, htrans, first, hfirst, -, rfl⟩
    · simp [hown, identifierColumn]
    · simp [htrans, inheritedColumn]
    · simp [hne, htrans, hfirst, hscalar, referenceColumn]

end Graph

def standardGenerator : Sql.Generator :=
  ⟨.builtIn, true, .builtIn⟩

/-- A customer is a person, and a person is a party; besides, a customer must have a party. -/
def dealingsTerms : List Term := [
  ⟨"Party", "Anyone we deal with.", none, none, [], none⟩,
  ⟨"Person", "A human being.", none, none, [⟨.inherits, "Person", "Party", none⟩], none⟩,
  ⟨"Customer", "A buyer.", none, none,
    [⟨.inherits, "Customer", "Person", none⟩, ⟨.requires, "Customer", "Party", none⟩], none⟩,
  ⟨"Account", "What a customer owes.", none, none,
    [⟨.requires, "Account", "Customer", none⟩], none⟩]

def dealings : Graph :=
  Graph.ofTerms (Primitives.ofNames builtInPrimitives) dealingsTerms

theorem build_dealingsTerms :
    Graph.build (Primitives.ofNames builtInPrimitives) dealingsTerms = .ok dealings := by
  rfl

def mustHaveCustomer : Link :=
  ⟨⟨.requires, "Account", "Customer", none⟩, "customer"⟩

theorem dealings_account :
    (dealings.table .standard "account").map (fun t => t.issues.map Issue.code) = .ok [] ∧
      dealings.references "account" = [mustHaveCustomer] := by
  decide +kernel

theorem account_customer_standsForStatement :
    ∃ t c, dealings.table .standard "account" = .ok t ∧ t.issues = [] ∧
      mustHaveCustomer ∈ dealings.references "account" ∧
      dealings.StandsForStatement .standard "account" t mustHaveCustomer c := by
  obtain ⟨htable, hreferences⟩ := dealings_account
  obtain ⟨t, ht, hissues⟩ := exists_of_map_eq_ok htable
  have hl : mustHaveCustomer ∈ dealings.references "account" := by
    rw [hreferences]
    exact List.mem_cons_self
  obtain ⟨c, hc⟩ := Graph.exists_standsForStatement ht (List.map_eq_nil_iff.mp hissues) hl
  exact ⟨t, c, ht, List.map_eq_nil_iff.mp hissues, hl, hc⟩

def mustHaveParty : Link :=
  ⟨⟨.requires, "Customer", "Party", none⟩, "party"⟩

theorem dealings_customer :
    (dealings.table .standard "customer").map (fun t =>
      (t.issues.map Issue.code, (t.column? "party_id").map Column.required,
        (standardGenerator.tableScript t).toOption.map Sql.Script.rules)) =
    .ok ([], some false, some ["existence", "identifier_not_null", "identifier_unique",
      "inheritance_integrity", "inheritance_integrity"]) ∧
    dealings.requirements "customer" = [mustHaveParty] ∧ dealings.isEntity "party" = true ∧
      (dealings.identifierColumn .standard "party").name = "party_id" := by
  decide +kernel

/-- The column for an ancestor that a term must have is neither required nor checked as a
reference, and no anomaly is reported. -/
theorem customer_party_isLost :
    ∃ g t script l, Graph.build (Primitives.ofNames builtInPrimitives) dealingsTerms = .ok g ∧
      g.table .standard "customer" = .ok t ∧ t.issues = [] ∧
      standardGenerator.tableScript t = .ok script ∧
      l ∈ g.requirements "customer" ∧ g.isEntity l.target = true ∧
      (t.column? (g.identifierColumn .standard l.target).name).map Column.required =
        some false ∧
      ¬ script.ChecksReference (g.identifierColumn .standard l.target).name
        (Name.table (g.label l.target)) := by
  obtain ⟨htable, hrequirements, hentity, hname⟩ := dealings_customer
  obtain ⟨t, ht, hvalues⟩ := exists_of_map_eq_ok htable
  rw [Prod.mk.injEq, Prod.mk.injEq] at hvalues
  obtain ⟨hissues, hrequired, hscript⟩ := hvalues
  obtain ⟨script, hscript, hrules⟩ := Option.map_eq_some_iff.mp hscript
  refine ⟨dealings, t, script, mustHaveParty, build_dealingsTerms, ht,
    List.map_eq_nil_iff.mp hissues, eq_ok_of_toOption_eq_some hscript, by simp [hrequirements],
    hentity, ?_, ?_⟩
  · rw [mustHaveParty, hname]
    exact hrequired
  · rintro ⟨a, ha, hrule, -⟩
    have hmem : a.rule ∈ script.rules := List.mem_map_of_mem ha
    rw [hrules, hrule] at hmem
    simp at hmem

end Glossary
