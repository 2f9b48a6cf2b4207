import Glossary.Proofs.AcceptedSchemas
import Glossary.Proofs.Attributes
import Glossary.Proofs.Isolation
import Glossary.Proofs.ParsedTerms

/-!
What is resolved can be generated. The types of all columns are mapped to SQL types when the type of
identifiers is, and no schema has a structural fault other than a column without a name.
-/

namespace Glossary

open Fallible

namespace Sql

namespace TypeMap

variable {m : TypeMap} {primitive p sqlType : String}

theorem maps_iff_mem : m.Maps p ↔ p ∈ m.entries.map Prod.fst := by
  rw [Maps, find?, List.lookup_isSome_iff, List.mem_map]
  refine exists_congr fun entry => and_congr_right fun _ => ?_
  rw [beq_iff_eq, eq_comm]

theorem maps_insert_iff : (m.insert primitive sqlType).Maps p ↔ p = primitive ∨ m.Maps p := by
  unfold insert
  split
  · rename_i hknown
    -- a known type gets another SQL type in its place
    have hkeys : (m.entries.map fun entry =>
        if entry.1 == primitive then (primitive, sqlType) else entry).map Prod.fst =
          m.entries.map Prod.fst := by
      rw [List.map_map]
      refine List.map_congr_left fun entry _ => ?_
      by_cases heq : entry.1 = primitive
      · simp [heq]
      · simp [heq]
    rw [maps_iff_mem, hkeys, ← maps_iff_mem]
    refine (or_iff_right_of_imp ?_).symm
    rintro rfl
    exact hknown
  · rw [maps_iff_mem, maps_iff_mem, List.map_append, List.mem_append, or_comm]
    simp

theorem maps_extend_iff {extra : List (String × String)} :
    (extend extra).Maps p ↔ p ∈ builtInPrimitives ∨ p ∈ extra.map Prod.fst := by
  have hfold : ∀ m : TypeMap,
      (extra.foldl (fun m entry => m.insert entry.1 entry.2) m).Maps p ↔
        m.Maps p ∨ p ∈ extra.map Prod.fst := by
    induction extra with
    | nil => simp
    | cons entry extra ih =>
        intro m
        rw [List.foldl_cons, ih, maps_insert_iff, List.map_cons, List.mem_cons, or_assoc,
          or_left_comm]
  rw [extend, hfold, maps_iff_mem]
  rfl

end TypeMap

theorem Generator.table_eq_error {g : Generator} {s : TableSchema} (hfaults : s.faults ≠ []) :
    g.createTable s = .error (.faulty s.table s.faults) ∧
      g.tableScript s = .error (.faulty s.table s.faults) := by
  have hunsound : requireSound s.table s.faults = .error (.faulty s.table s.faults) :=
    if_neg (by simpa using hfaults)
  rw [Generator.createTable, Generator.tableScript, hunsound]
  exact ⟨rfl, rfl⟩

end Sql

namespace TableSchema

/-- What is told of a column without a name. -/
def unnamedFault (table : String) (c : Column) : Issue :=
  ⟨.physical, IssueCode.emptyColumnName.text, table,
    table ++ ": column for term '" ++ c.label ++ "' has no name", []⟩

theorem columnFaults_eq {table : String} {seen : List String} {cs : List Column}
    (hnodup : (cs.map Column.name).Nodup) (hseen : ∀ c ∈ cs, c.name ∉ seen) :
    columnFaults table seen cs = (cs.filter fun c => c.name == "").map (unnamedFault table) := by
  induction cs generalizing seen with
  | nil => rfl
  | cons c cs ih =>
      rw [List.map_cons, List.nodup_cons] at hnodup
      -- no name comes twice, so that of two checks only the first can fail
      have hrest : ∀ k ∈ cs, k.name ∉ c.name :: seen := by
        intro k hk hmem
        rcases List.mem_cons.mp hmem with heq | hmem
        · exact hnodup.1 (heq ▸ List.mem_map_of_mem hk)
        · exact hseen k (List.mem_cons_of_mem c hk) hmem
      have ih := ih hnodup.2 hrest
      by_cases hname : c.name = ""
      · rw [hname] at ih
        simp [columnFaults, hname, unnamedFault, ih]
      · simp [columnFaults, hname, hseen c List.mem_cons_self, ih]

end TableSchema

theorem filter_unnamed_eq {cs : List Column} (hnodup : (cs.map Column.name).Nodup) {c : Column}
    (hc : c ∈ cs) (hname : c.name = "") : (cs.filter fun k => k.name == "") = [c] := by
  obtain ⟨before, after, rfl⟩ := List.append_of_mem hc
  rw [List.map_append, List.map_cons, List.nodup_append, List.nodup_cons] at hnodup
  have hbefore : (before.filter fun k => k.name == "") = [] := by
    refine List.filter_eq_nil_iff.mpr fun k hk heq => ?_
    exact hnodup.2.2 _ (List.mem_map_of_mem hk) _ List.mem_cons_self
      ((eq_of_beq heq).trans hname.symm)
  have hafter : (after.filter fun k => k.name == "") = [] := by
    refine List.filter_eq_nil_iff.mpr fun k hk heq => ?_
    exact hnodup.2.1.1 (List.mem_map.mpr ⟨k, hk, (eq_of_beq heq).trans hname.symm⟩)
  simp [List.filter_append, hbefore, hafter, hname]

namespace Graph

variable {g : Graph} {o : ResolutionOptions} {key : Key} {t : TableSchema} {s : Schema}
  {layer : Layer}

/-- Of all that can be wrong with a table, only a name can be missing. -/
theorem IsTable.faults_eq (h : g.IsTable o key t) :
    t.faults = (t.columns.filter fun c => c.name == "").map (TableSchema.unnamedFault t.table) := by
  obtain ⟨rest, hrest⟩ := List.head?_eq_some_iff.mp h.identifier_eq
  have htable : t.table ≠ "" := by
    rw [h.table_eq]
    intro heq
    have hlist := congrArg String.toList heq
    simp [Name.table] at hlist
  have hkey : TableSchema.keyFaults t.table (g.identifierColumn o key) = [] := rfl
  rw [TableSchema.faults, hrest]
  simp only [htable, if_false, hkey, List.nil_append]
  rw [← hrest]
  exact TableSchema.columnFaults_eq h.nodup (by simp)

theorem IsTable.faults_eq_nil (h : g.IsTable o key t) (hnames : "" ∉ t.columnNames) :
    t.faults = [] := by
  rw [h.faults_eq, List.map_eq_nil_iff, List.filter_eq_nil_iff]
  exact fun c hc heq => hnames (List.mem_map.mpr ⟨c, hc, eq_of_beq heq⟩)

theorem IsTable.exists_faults_eq (h : g.IsTable o key t) (hnames : "" ∈ t.columnNames) :
    ∃ c, t.faults = [TableSchema.unnamedFault t.table c] := by
  obtain ⟨c, hc, hname⟩ := List.mem_map.mp hnames
  have hunnamed := filter_unnamed_eq h.nodup hc hname
  exact ⟨c, by rw [h.faults_eq, hunnamed, List.map_singleton]⟩

theorem columns_source_eq (h : g.schema o layer key = .ok s) :
    ∀ c ∈ s.columns, (c.name, c.primitive) = g.identifierSource o c.term := by
  cases layer with
  | physical =>
      obtain ⟨t, ht, rfl⟩ := exists_of_map_eq_ok h
      intro c hc
      exact source_eq_of_mem_contributions ((isTable_of_table_eq_ok ht).contributed c hc)
  | logical =>
      obtain ⟨v, hv, rfl⟩ := exists_of_map_eq_ok h
      exact List.forall_mem_map.mpr (view_source_eq hv)

/-- The type of an identifier is a primitive type of the dictionary, or the one for identifiers. -/
theorem identifierSource_cases (g : Graph) (o : ResolutionOptions) (key : Key) :
    (∃ k, g.primitiveType? k = some (g.identifierSource o key).2) ∨
      (g.identifierSource o key).2 = o.identifierType := by
  unfold identifierSource
  split
  · rename_i primitive hprimitive
    exact Or.inl ⟨key, hprimitive⟩
  · split
    · rename_i declared _
      cases hdeclared : g.primitiveType? declared with
      | some primitive => exact Or.inl ⟨declared, hdeclared⟩
      | none => exact Or.inr rfl
    · exact Or.inr rfl

theorem primitive_cases (h : g.schema o layer key = .ok s) {c : Column} (hc : c ∈ s.columns) :
    (∃ k, g.primitiveType? k = some c.primitive) ∨ c.primitive = o.identifierType := by
  have heq : c.primitive = (g.identifierSource o c.term).2 :=
    congrArg Prod.snd (columns_source_eq h c hc)
  rw [heq]
  exact identifierSource_cases g o c.term

theorem mem_names_of_spelling? {names : List String} {spelling : String}
    (h : (Primitives.ofNames names).spelling? key = some spelling) : spelling ∈ names := by
  obtain ⟨before, after, heq, -⟩ := List.lookup_eq_some_iff.mp h
  have hmem : (key, spelling) ∈ (Primitives.ofNames names).entries := by simp [heq]
  obtain ⟨name, hname, heq⟩ := List.mem_map.mp hmem
  obtain ⟨-, rfl⟩ := Prod.mk.inj heq
  exact List.mem_reverse.mp hname

theorem mem_names_of_primitiveType? {names : List String} {terms : List Term} {primitive : String}
    (h : (ofTerms (.ofNames names) terms).primitiveType? key = some primitive) :
    primitive ∈ names := by
  unfold primitiveType? at h
  split at h
  · rename_i e he
    obtain ⟨t, -, rfl⟩ := List.mem_map.mp (List.mem_of_find?_eq_some he)
    obtain ⟨name, -, hspelling⟩ := Option.bind_eq_some_iff.mp h
    exact mem_names_of_spelling? hspelling
  · exact mem_names_of_spelling? h

end Graph

theorem Settings.maps_of_mem_primitives {settings : Settings} {primitive : String}
    (h : primitive ∈ settings.primitives) :
    (Sql.TypeMap.extend settings.extraPrimitives).Maps primitive :=
  Sql.TypeMap.maps_extend_iff.mpr
    ((List.mem_append.mp h).imp_right fun hmem => (List.mem_filter.mp hmem).1)

namespace CompiledDictionary

open Sql

variable {settings : Settings} {text name : String} {c : CompiledDictionary} {layer : Layer}
  {memory : Memory} {s : Schema} {key : Key}

/-- However a primitive type is written, and wherever a term is given one, it has an SQL type. -/
structure MapsPrimitives (c : CompiledDictionary) : Prop where
  spellings : ∀ written, c.graph.primitives.contains (Name.key written) = true →
    ∃ spelling, c.graph.primitives.spelling? (Name.key written) = some spelling ∧
      c.generator.types.Maps spelling
  declared : ∀ t ∈ c.graph.terms, ∀ type, t.typeName? = some type → c.generator.types.Maps type

/-- The user is told that the table has a column without a name. -/
def RefusesUnnamed {α : Type} (x : Except TermError α) (table : String) : Prop :=
  ∃ e : SqlError, x = .error (.generation e) ∧ e.diagnostic? = some (.generation
    ("cannot generate SQL for " ++ table ++ ": EMPTY_COLUMN_NAME at " ++ table) (some table))

/-- What is known of the statement and the script of a term with this schema. -/
structure GeneratesFrom (c : CompiledDictionary) (layer : Layer) (name : String) (memory : Memory)
    (s : Schema) : Prop where
  typed : ∀ column ∈ s.columns, c.generator.types.Maps column.primitive
  faults_unnamed : ∀ i ∈ s.faults, i.code = "EMPTY_COLUMN_NAME"
  generated : (layer = .physical → "" ∉ s.columnNames) →
    (∃ statement, (c.create layer name memory).1 = .ok statement) ∧
      ∃ tests, (c.test layer name memory).1 = .ok tests
  refused : layer = .physical → "" ∈ s.columnNames → ∃ t, s = .table t ∧
    RefusesUnnamed (c.create layer name memory).1 t.table ∧
      RefusesUnnamed (c.test layer name memory).1 t.table

theorem exists_of_typeName? {primitives : Primitives} {t : Term} {type : String}
    (ht : t.declared.IsConsistent primitives t.name) (h : t.typeName? = some type) :
    ∃ r ∈ t.relationships, r.relation = .primitiveType ∧ r.target = type := by
  rcases Option.or_eq_some_iff.mp h with htype | ⟨-, htype⟩
  · have hdeclared : t.declaredType = some type := (Option.filter_eq_some_iff.mp htype).1
    obtain ⟨r, hr, hrelation⟩ := ht.typed_iff.mpr (Option.isSome_of_mem hdeclared)
    have heq := (ht.type_eq r hr hrelation).1.symm.trans hdeclared
    exact ⟨r, hr, hrelation, Option.some.inj heq⟩
  · obtain ⟨r, hr, rfl⟩ := Option.map_eq_some_iff.mp htype
    exact ⟨r, List.mem_of_find?_eq_some hr, by simpa using List.find?_some hr, rfl⟩

theorem mapsPrimitives (hc : compile settings text = .ok c) : c.MapsPrimitives := by
  obtain ⟨terms, g, hterms, hg, rfl⟩ := compile_eq_ok_iff.mp hc
  obtain ⟨rfl, haccepts⟩ := Graph.build_eq_ok_iff.mp hg
  have hspelling : ∀ {key spelling},
      (Primitives.ofNames settings.primitives).spelling? key = some spelling →
      (TypeMap.extend settings.extraPrimitives).Maps spelling := fun h =>
    Settings.maps_of_mem_primitives (Graph.mem_names_of_spelling? h)
  constructor
  · intro written hwritten
    obtain ⟨spelling, h⟩ := Option.isSome_iff_exists.mp hwritten
    exact ⟨spelling, h, hspelling h⟩
  · intro t ht type htype
    change t ∈ (Graph.ofTerms _ terms).terms at ht
    rw [Graph.terms_ofTerms] at ht
    have hconsistent := (Dictionary.isWellFormed_of_mem hterms ht).consistent
    obtain ⟨r, hr, hrelation, rfl⟩ := exists_of_typeName? hconsistent htype
    exact hspelling (hconsistent.type_eq r hr hrelation).2

theorem request_eq_ok_iff (hmemory : memory.Faithful c.graph c.resolver.options) :
    (c.resolver.request layer name memory).1 = .ok s ↔ ∃ key, c.graph.keyOf name = .ok key ∧
      c.graph.schema c.resolver.options layer key = .ok s := by
  rw [(c.resolver.request_eq layer name hmemory).1, Resolver.answer]
  simp only [bind_eq_ok_iff, mapError_eq_ok_iff]
  rfl

theorem output_of_request {α : Type} {make : Schema → Except TermError α}
    (h : (c.resolver.request layer name memory).1 = .ok s) :
    (c.output make layer name memory).1 = make s := by
  unfold output
  dsimp only
  rw [h]
  rfl

theorem maps_of_mem_columns (hc : compile settings text = .ok c)
    (htype : (TypeMap.extend settings.extraPrimitives).Maps settings.identifierType)
    (hs : c.graph.schema c.resolver.options layer key = .ok s) :
    ∀ column ∈ s.columns, c.generator.types.Maps column.primitive := by
  obtain ⟨terms, g, -, hg, rfl⟩ := compile_eq_ok_iff.mp hc
  obtain ⟨rfl, -⟩ := Graph.build_eq_ok_iff.mp hg
  intro column hcolumn
  rcases Graph.primitive_cases hs hcolumn with ⟨k, hk⟩ | heq
  · exact Settings.maps_of_mem_primitives (Graph.mem_names_of_primitiveType? hk)
  · rw [heq]
    exact htype

theorem create_of_request (h : (c.resolver.request layer name memory).1 = .ok s) :
    (c.create layer name memory).1 = (c.generator.create s).mapError .generation :=
  output_of_request h

theorem test_of_request (h : (c.resolver.request layer name memory).1 = .ok s) :
    (c.test layer name memory).1 =
      ((c.generator.script s).map Script.render).mapError .generation :=
  output_of_request h

theorem refusesUnnamed_of_faulty {α : Type} (table : String) (k : Column) :
    RefusesUnnamed (α := α)
      (.error (.generation (.faulty table [TableSchema.unnamedFault table k]))) table := by
  have htext : ": EMPTY_COLUMN_NAME at " = ": " ++ ("EMPTY_COLUMN_NAME" ++ " at ") := rfl
  refine ⟨_, rfl, congrArg some (congrArg (Diagnostic.generation · (some table)) ?_)⟩
  rw [List.map_singleton, String.intercalate_singleton, htext]
  simp only [String.append_assoc]
  rfl

theorem generatesFrom_table {t : TableSchema} (hranges : c.generator.ranges = .builtIn)
    (ht : c.graph.IsTable c.resolver.options key t)
    (htyped : ∀ column ∈ t.columns, c.generator.types.Maps column.primitive)
    (hs : (c.resolver.request .physical name memory).1 = .ok (.table t)) :
    c.GeneratesFrom .physical name memory (.table t) where
  typed := htyped
  faults_unnamed := by
    intro i hi
    change i ∈ t.faults at hi
    rw [ht.faults_eq] at hi
    obtain ⟨k, -, rfl⟩ := List.mem_map.mp hi
    rfl
  generated := by
    intro hnames
    have hwell := TableSchema.faults_eq_nil_iff.mp (ht.faults_eq_nil (hnames rfl))
    obtain ⟨⟨statement, hstatement⟩, script, hscript⟩ :=
      Generator.exists_texts hranges (s := .table t) ⟨hwell, htyped⟩
    rw [create_of_request hs, test_of_request hs, hstatement, hscript]
    exact ⟨⟨statement, rfl⟩, script.render, rfl⟩
  refused := by
    intro _ hnames
    obtain ⟨k, hk⟩ := ht.exists_faults_eq hnames
    obtain ⟨hcreate, hscript⟩ := Generator.table_eq_error (g := c.generator)
      (hk ▸ List.cons_ne_nil _ _)
    rw [create_of_request hs, test_of_request hs, Generator.create, Generator.script, hcreate,
      hscript, hk]
    exact ⟨t, rfl, refusesUnnamed_of_faulty t.table k, refusesUnnamed_of_faulty t.table k⟩

theorem generatesFrom_view {v : ViewSchema} (hranges : c.generator.ranges = .builtIn)
    (hv : c.graph.view c.resolver.options key = .ok v)
    (htyped : ∀ column ∈ v.columns.map ViewColumn.toColumn,
      c.generator.types.Maps column.primitive)
    (hs : (c.resolver.request .logical name memory).1 = .ok (.view v)) :
    c.GeneratesFrom .logical name memory (.view v) := by
  obtain ⟨table, exposed, parents, hassembles⟩ := Graph.exists_assembles hv
  have hfaults := hassembles.faults_eq_nil
  obtain ⟨⟨statement, hstatement⟩, script, hscript⟩ :=
    Generator.exists_texts hranges (s := .view v) ⟨hassembles.isWellFormed, htyped⟩
  constructor
  case typed => exact htyped
  case faults_unnamed =>
    intro i hi
    change i ∈ v.faults at hi
    rw [hfaults] at hi
    cases hi
  case generated =>
    intro _
    rw [create_of_request hs, test_of_request hs, hstatement, hscript]
    exact ⟨⟨statement, rfl⟩, script.render, rfl⟩
  case refused => nofun

/-- If identifiers have a type that SQL knows, a resolved term has a statement and a script, unless
a column of its table has no name. -/
theorem resolved_generates (hc : compile settings text = .ok c)
    (htype : (TypeMap.extend settings.extraPrimitives).Maps settings.identifierType)
    (hmemory : memory.Faithful c.graph c.resolver.options)
    (hs : (c.resolver.request layer name memory).1 = .ok s) :
    c.MapsPrimitives ∧ c.GeneratesFrom layer name memory s := by
  refine ⟨mapsPrimitives hc, ?_⟩
  obtain ⟨key, -, hschema⟩ := (request_eq_ok_iff hmemory).mp hs
  have htyped := maps_of_mem_columns hc htype hschema
  cases layer with
  | physical =>
      obtain ⟨t, ht, rfl⟩ := exists_of_map_eq_ok hschema
      exact generatesFrom_table (ranges_eq_builtIn hc) (Graph.isTable_of_table_eq_ok ht) htyped hs
  | logical =>
      obtain ⟨v, hv, rfl⟩ := exists_of_map_eq_ok hschema
      exact generatesFrom_view (ranges_eq_builtIn hc) hv htyped hs

/-- One type is extra, and the column for the mark has no name. -/
def wareSettings : Settings :=
  { Settings.standard with extraPrimitives := [("Money", "DECIMAL(10, 2)")] }

def wareText : String :=
  "# Price\nWhat it costs.\n- Price is a  mONEY\n\n# !!!\nA mark.\n- !!! is a string\n\n" ++
    "# Ware\nA thing.\n- Ware has a Price\n- Ware has a !!!\n"

def wareTerms : List Term := [
  ⟨"Price", "What it costs.", some "Money", none,
    [⟨.primitiveType, "Price", "Money", some 3⟩], some 1⟩,
  ⟨"!!!", "A mark.", some "String", none, [⟨.primitiveType, "!!!", "String", some 7⟩], some 5⟩,
  ⟨"Ware", "A thing.", none, none, [
    ⟨.composes, "Ware", "Price", some 11⟩,
    ⟨.composes, "Ware", "!!!", some 12⟩], some 9⟩]

theorem compile_wareText : compile wareSettings wareText =
    .ok (wareSettings.compiled (.ofTerms (.ofNames wareSettings.primitives) wareTerms)) :=
  compile_eq_ok_iff.mpr ⟨wareTerms, _, eq_ok_of_toOption_eq_some (by decide +kernel), rfl, rfl⟩

theorem ware_generates : ∃ c t v, compile wareSettings wareText = .ok c ∧
    t.table = "physical_ware" ∧ t.columns.map (fun k => (k.name, k.primitive)) =
      [("ware_id", "String"), ("price", "Money"), ("", "String")] ∧
    (c.resolver.request .physical "Ware" .empty).1 = .ok (.table t) ∧
    (c.resolver.request .logical "Ware" .empty).1 = .ok (.view v) ∧
    c.MapsPrimitives ∧ RefusesUnnamed (c.create .physical "Ware" .empty).1 t.table ∧
    ∃ statement, (c.create .logical "Ware" .empty).1 = .ok statement := by
  have hc := compile_wareText
  generalize hcompiled : wareSettings.compiled _ = c at hc
  have hkey : c.graph.keyOf "Ware" = .ok "ware" := by
    subst hcompiled
    rfl
  have htable : (c.graph.table c.resolver.options "ware").map (fun t =>
      (t.table, t.columns.map fun k => (k.name, k.primitive))) =
      .ok ("physical_ware", [("ware_id", "String"), ("price", "Money"), ("", "String")]) := by
    subst hcompiled
    decide +kernel
  have hview : (c.graph.view c.resolver.options "ware").map ViewSchema.view =
      .ok "logical_ware" := by
    subst hcompiled
    decide +kernel
  obtain ⟨t, ht, hvalues⟩ := exists_of_map_eq_ok htable
  obtain ⟨v, hv, -⟩ := exists_of_map_eq_ok hview
  obtain ⟨hname, hcolumns⟩ := Prod.mk.inj hvalues
  have hphysical : (c.resolver.request .physical "Ware" .empty).1 = .ok (.table t) :=
    (request_eq_ok_iff Memory.faithful_empty).mpr ⟨"ware", hkey, by rw [Graph.schema, ht]; rfl⟩
  have hlogical : (c.resolver.request .logical "Ware" .empty).1 = .ok (.view v) :=
    (request_eq_ok_iff Memory.faithful_empty).mpr ⟨"ware", hkey, by rw [Graph.schema, hv]; rfl⟩
  obtain ⟨hmaps, htexts⟩ := resolved_generates hc rfl Memory.faithful_empty hphysical
  obtain ⟨-, htexts'⟩ := resolved_generates hc rfl Memory.faithful_empty hlogical
  have hunnamed : ("", "String") ∈ t.columns.map fun k => (k.name, k.primitive) := by
    rw [hcolumns]
    decide
  obtain ⟨k, hk, heq⟩ := List.mem_map.mp hunnamed
  obtain ⟨_, hschema, hrefused, -⟩ :=
    htexts.refused rfl (List.mem_map.mpr ⟨k, hk, congrArg Prod.fst heq⟩)
  obtain rfl := Schema.table.inj hschema
  exact ⟨c, t, v, hc, hname, hcolumns, hphysical, hlogical, hmaps, hrefused,
    (htexts'.generated nofun).1⟩

end CompiledDictionary

end Glossary
