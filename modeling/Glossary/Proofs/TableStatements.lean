import Mathlib.Data.List.Infix
import Glossary.Proofs.Generation
import Glossary.Proofs.QuotedNames

/-!
The text of a statement that creates a table is read back. It tells the name of the table and, of
every column in order, the name, the primitive type, whether it is required and whether it is the
key, so that tables which differ in one of these are written differently.
-/

namespace Glossary.Sql

open Fallible

/-- What the text of a statement tells of a column. -/
structure ColumnOutline where
  name : String
  primitive : String
  required : Bool
  isKey : Bool
  deriving DecidableEq

/-- What the text of a statement tells of a table. -/
structure TableOutline where
  name : String
  columns : List ColumnOutline
  deriving DecidableEq

/-- The outline has the names, the types and the null marks of the table, and the first column is
the key. -/
structure TableOutline.Describes (outline : TableOutline) (s : TableSchema) : Prop where
  name_eq : outline.name = s.table
  columns_eq : (outline.columns.map fun c => (c.name, c.primitive, c.required)) =
    s.columns.map fun c => (c.name, c.primitive, c.required)
  first_isKey : ∃ first rest, outline.columns = first :: rest ∧ first.isKey = true ∧
    ∀ c ∈ rest, c.isKey = false

/-- No SQL type of the map begins with another one. -/
def TypeMap.IsUnambiguous (types : TypeMap) : Prop :=
  types.entries.Pairwise fun e e' =>
    ¬e.2.toList <+: e'.2.toList ∧ ¬e'.2.toList <+: e.2.toList

/-- Reads a name that a space follows. A name without quotes has no space in it. -/
def readName : List Char → Option (List Char × List Char)
  | '"' :: rest => readQuoted rest
  | cs => some (cs.takeWhile (· != ' '), cs.dropWhile (· != ' '))

/-- Reads an SQL type as the primitive type that it stands for. -/
def TypeMap.read? (types : TypeMap) (cs : List Char) : Option (String × List Char) :=
  types.entries.findSome? fun entry =>
    (cs.dropPrefix? entry.2.toList).map fun rest => (entry.1, rest)

/-- Reads a mark that may be missing. -/
def readMark (mark cs : List Char) : Bool × List Char :=
  match cs.dropPrefix? mark with
  | some rest => (true, rest)
  | none => (false, cs)

def ColumnOutline.read? (types : TypeMap) (cs : List Char) :
    Option (ColumnOutline × List Char) := do
  let cs ← cs.dropPrefix? indentation.toList
  let (name, cs) ← readName cs
  let cs ← cs.dropPrefix? [' ']
  let (primitive, cs) ← types.read? cs
  let (required, cs) := readMark " NOT NULL".toList cs
  let (isKey, cs) := readMark " PRIMARY KEY".toList cs
  return (⟨String.ofList name, primitive, required, isKey⟩, cs)

/-- Reads at most `count` columns, up to the end of the statement. -/
def readColumns (types : TypeMap) : Nat → List Char → Option (List ColumnOutline)
  | 0, _ => none
  | count + 1, cs => do
      let (column, cs) ← ColumnOutline.read? types cs
      if cs = "\n);\n".toList then some [column]
      else do
        let cs ← cs.dropPrefix? ",\n".toList
        let columns ← readColumns types count cs
        return column :: columns

/-- Reads a statement that creates a table. It has no more columns than characters. -/
def TableOutline.read? (types : TypeMap) (text : String) : Option TableOutline := do
  let cs ← text.toList.dropPrefix? "CREATE TABLE ".toList
  let (name, cs) ← readName cs
  let cs ← cs.dropPrefix? " (\n".toList
  let columns ← readColumns types cs.length cs
  return ⟨String.ofList name, columns⟩

variable {types : TypeMap} {name primitive sqlType text table : String} {cs rest mark : List Char}
  {c : Column} {d : ColumnDefinition} {isKey : Bool}

theorem dropPrefix?_append (mark rest : List Char) : (mark ++ rest).dropPrefix? mark = some rest :=
  List.dropPrefix?_append_of_beq rest (beq_self_eq_true mark)

theorem dropPrefix?_eq_none (h : ¬mark <+: cs) : cs.dropPrefix? mark = none := by
  cases hdrop : cs.dropPrefix? mark with
  | none => rfl
  | some rest =>
      obtain ⟨mark', rfl, hmark⟩ := List.dropPrefix?_eq_some_iff.mp hdrop
      rw [beq_iff_eq] at hmark
      exact absurd (hmark ▸ List.prefix_append mark' rest) h

theorem readMark_append (present : Bool) (h : ¬mark <+: rest) :
    readMark mark ((if present then mark else []) ++ rest) = (present, rest) := by
  cases present with
  | true => simp [readMark, dropPrefix?_append]
  | false => simp [readMark, dropPrefix?_eq_none h]

theorem readName_of_bare (hquote : cs.head? ≠ some '"') (hspace : ' ' ∉ cs) (rest : List Char) :
    readName (cs ++ ' ' :: rest) = some (cs, ' ' :: rest) := by
  have hchars : ∀ c ∈ cs, (c != ' ') = true := fun c hc =>
    bne_iff_ne.mpr fun hsame => hspace (hsame ▸ hc)
  unfold readName
  split
  · rename_i after heq
    cases cs with
    | nil => cases heq
    | cons c cs => exact absurd (congrArg some (List.cons.inj heq).1) hquote
  · rw [List.takeWhile_append_of_pos hchars, List.dropWhile_append_of_pos hchars]
    simp

/-- Every name is read back in front of a space, also one that is no identifier as it is written. -/
theorem readName_quote (name : String) (rest : List Char) :
    readName ((quote name).toList ++ ' ' :: rest) = some (name.toList, ' ' :: rest) := by
  rcases quote_cases name with ⟨hplain, -, hquote⟩ | ⟨⟨word, hword, hname⟩, hquote⟩ | ⟨-, hquote⟩
  · rw [hquote]
    exact readName_of_bare hplain.head?_ne_quote (hplain.not_mem (by decide)) rest
  · rw [hquote, hname]
    refine readName_of_bare ?_ ?_ rest
    · rw [List.head?_append_of_ne_nil _ hword.ne_nil]
      exact hword.head?_ne_quote
    · have hspace : ' ' ∉ word := hword.not_mem (by decide)
      simp [hspace]
  · rw [hquote, String.toList_ofList, List.cons_append, List.cons_append, List.append_assoc,
      List.singleton_append]
    exact readQuoted_of_doublesQuotes (doublesQuotes_doubleQuotes name.toList) (by simp)

theorem TypeMap.read?_append (htypes : types.IsUnambiguous)
    (h : types.find? primitive = some sqlType) (rest : List Char) :
    types.read? (sqlType.toList ++ rest) = some (primitive, rest) := by
  obtain ⟨before, after, hentries, -⟩ := List.lookup_eq_some_iff.mp h
  rw [IsUnambiguous, hentries, List.pairwise_append] at htypes
  -- an entry that stands before this one does not fit the text
  have hbefore : ∀ e ∈ before, ((sqlType.toList ++ rest).dropPrefix? e.2.toList).map
      (fun rest => (e.1, rest)) = none := by
    intro e he
    obtain ⟨hne, hne'⟩ := htypes.2.2 e he _ List.mem_cons_self
    rw [Option.map_eq_none_iff]
    apply dropPrefix?_eq_none
    intro hprefix
    rcases List.prefix_or_prefix_of_prefix hprefix (List.prefix_append _ rest) with h | h
    · exact hne h
    · exact hne' h
  rw [TypeMap.read?, hentries, List.findSome?_append, List.findSome?_eq_none_iff.mpr hbefore,
    Option.none_or, List.findSome?_cons, dropPrefix?_append]
  rfl

theorem isUnambiguous_builtIn : TypeMap.builtIn.IsUnambiguous := by
  unfold TypeMap.IsUnambiguous
  decide

theorem not_isPrefix_of_head? (hrest : rest.head? ≠ some ' ') :
    ¬(' ' :: mark) <+: rest := by
  rintro ⟨after, rfl⟩
  exact hrest rfl

theorem ColumnDefinition.toList_render (d : ColumnDefinition) (rest : List Char) :
    d.render.toList ++ rest = indentation.toList ++ ((quote d.name).toList ++
      ' ' :: (d.sqlType.toList ++ ((if d.required then " NOT NULL".toList else []) ++
        ((if d.isKey then " PRIMARY KEY".toList else []) ++ rest)))) := by
  have hspace : " ".toList = [' '] := rfl
  have hempty : "".toList = [] := rfl
  simp only [ColumnDefinition.render, String.toList_append, apply_ite String.toList,
    List.append_assoc, hspace, hempty, List.cons_append, List.nil_append]

/-- A column is read back in front of anything but a further mark. -/
theorem ColumnOutline.read?_append (htypes : types.IsUnambiguous)
    (h : ColumnDefinition.ofColumn types table isKey c = .ok d) (hrest : rest.head? ≠ some ' ') :
    ColumnOutline.read? types (d.render.toList ++ rest) =
      some (⟨c.name, c.primitive, c.required, isKey⟩, rest) := by
  obtain ⟨sqlType, htype, h⟩ := bind_eq_ok_iff.mp h
  obtain rfl := Except.ok.inj h
  have hkey : ¬" NOT NULL".toList <+:
      (if isKey then " PRIMARY KEY".toList else []) ++ rest := by
    cases isKey with
    | true => simp
    | false => exact not_isPrefix_of_head? hrest
  have hend : ¬" PRIMARY KEY".toList <+: rest := not_isPrefix_of_head? hrest
  have hspace (rest : List Char) : (' ' :: rest).dropPrefix? [' '] = some rest :=
    dropPrefix?_append [' '] rest
  rw [ColumnDefinition.toList_render, ColumnOutline.read?, dropPrefix?_append]
  simp only [Option.bind_eq_bind, Option.bind_some, readName_quote, hspace,
    types.read?_append htypes (sqlType_eq_ok_iff.mp htype), readMark_append _ hkey,
    readMark_append _ hend, String.ofList_toList]
  rfl

/-- The definition is read as this outline, wherever a column may end. -/
def ColumnDefinition.IsRead (types : TypeMap) (d : ColumnDefinition) (o : ColumnOutline) : Prop :=
  ∀ rest, rest.head? ≠ some ' ' →
    ColumnOutline.read? types (d.render.toList ++ rest) = some (o, rest)

theorem length_le_length_intercalate {sep : List Char} (hsep : sep ≠ [])
    (texts : List (List Char)) :
    texts.length ≤ (sep.intercalate texts).length + 1 := by
  have hpos := List.length_pos_of_ne_nil hsep
  induction texts with
  | nil => simp
  | cons text texts ih =>
      cases texts with
      | nil => simp
      | cons next texts =>
          rw [List.intercalate_cons_cons, List.length_append, List.length_append]
          rw [List.length_cons]
          omega

theorem readColumns_append {ds : List ColumnDefinition} {os : List ColumnOutline}
    (h : List.Forall₂ (ColumnDefinition.IsRead types) ds os) (hne : ds ≠ []) {count : Nat}
    (hcount : ds.length ≤ count) :
    readColumns types count (",\n".toList.intercalate (ds.map fun d => d.render.toList) ++
      "\n);\n".toList) = some os := by
  induction h generalizing count with
  | nil => exact absurd rfl hne
  | @cons d o ds os hread htail ih =>
      obtain ⟨count, rfl⟩ : ∃ n, count = n + 1 :=
        Nat.exists_eq_add_one.mpr (Nat.lt_of_lt_of_le (by simp) hcount)
      cases htail with
      | nil =>
          rw [List.map_cons, List.map_nil, List.intercalate_singleton, readColumns,
            hread "\n);\n".toList (by simp)]
          rfl
      | @cons d' o' ds os hread' htail =>
          have hmore := ih (List.cons_ne_nil d' ds) (Nat.le_of_succ_le_succ hcount)
          rw [List.map_cons] at hmore
          rw [List.map_cons, List.map_cons, List.intercalate_cons_cons, List.append_assoc,
            List.append_assoc, readColumns, hread _ (by simp)]
          generalize ",\n".toList.intercalate _ ++ "\n);\n".toList = after at hmore ⊢
          have hmark : ",\n".toList ++ after ≠ "\n);\n".toList := by simp
          simp only [Option.bind_eq_bind, Option.bind_some, if_neg hmark, dropPrefix?_append, hmore]
          rfl

/-- A statement that comes from a table is the text of an outline of this table. -/
theorem exists_describes {s : TableSchema} {statement : CreateTable} (htypes : types.IsUnambiguous)
    (hne : s.columns ≠ []) (h : CreateTable.ofSchema types s = .ok statement) :
    ∃ outline : TableOutline, outline.Describes s ∧ outline.name = statement.name ∧
      List.Forall₂ (ColumnDefinition.IsRead types) statement.columns outline.columns := by
  unfold CreateTable.ofSchema at h
  split at h
  · contradiction
  · rename_i identifier others hcolumns
    obtain ⟨first, hfirst, h⟩ := bind_eq_ok_iff.mp h
    obtain ⟨definitions, hdefinitions, h⟩ := bind_eq_ok_iff.mp h
    obtain rfl := Except.ok.inj h
    have hread : List.Forall₂ (ColumnDefinition.IsRead types) definitions
        (others.map fun c => ⟨c.name, c.primitive, c.required, false⟩) := by
      rw [List.forall₂_map_right_iff]
      exact (mapM_eq_ok_iff_forall₂.mp hdefinitions).flip.imp fun d c hd rest hrest =>
        ColumnOutline.read?_append htypes hd hrest
    refine ⟨⟨s.table, ⟨identifier.name, identifier.primitive, identifier.required, true⟩ :: _⟩,
      ⟨rfl, ?_, _, _, rfl, rfl, ?_⟩, rfl, .cons ?_ hread⟩
    · rw [hcolumns]
      simp
    · simp
    · exact fun rest hrest => ColumnOutline.read?_append htypes hfirst hrest

theorem CreateTable.toList_render (statement : CreateTable) :
    statement.render.toList = "CREATE TABLE ".toList ++ ((quote statement.name).toList ++
      ' ' :: ("(\n".toList ++ (",\n".toList.intercalate
        (statement.columns.map fun d => d.render.toList) ++ "\n);\n".toList))) := by
  have hopening : " (\n".toList = ' ' :: "(\n".toList := rfl
  unfold CreateTable.render
  simp only [String.toList_append, String.toList_intercalate, List.map_map, Function.comp_def,
    hopening, List.append_assoc, List.cons_append]

theorem TableOutline.read?_render {outline : TableOutline} {statement : CreateTable}
    (hname : outline.name = statement.name) (hne : statement.columns ≠ [])
    (h : List.Forall₂ (ColumnDefinition.IsRead types) statement.columns outline.columns) :
    TableOutline.read? types statement.render = some outline := by
  have hopening (rest : List Char) :
      (' ' :: ("(\n".toList ++ rest)).dropPrefix? " (\n".toList = some rest :=
    dropPrefix?_append " (\n".toList rest
  have hcount : statement.columns.length ≤ (",\n".toList.intercalate
      (statement.columns.map fun d => d.render.toList) ++ "\n);\n".toList).length := by
    have hcomma : ",\n".toList ≠ [] := by simp
    have hlength := length_le_length_intercalate hcomma
      (statement.columns.map fun d => d.render.toList)
    rw [List.length_map] at hlength
    rw [List.length_append]
    exact Nat.le_trans hlength (Nat.add_le_add_left (by decide) _)
  have hcolumns := readColumns_append h hne hcount
  rw [TableOutline.read?, statement.toList_render, dropPrefix?_append]
  simp only [Option.bind_eq_bind, Option.bind_some, readName_quote, hopening, hcolumns,
    String.ofList_toList, ← hname]
  rfl

namespace Generator

variable {g : Generator} {s : TableSchema}

theorem exists_statement_of_createTable (h : g.createTable s = .ok text) :
    s.columns ≠ [] ∧ ∃ statement, CreateTable.ofSchema g.types s = .ok statement ∧
      text = statement.render := by
  obtain ⟨⟨⟩, hsound, h⟩ := bind_eq_ok_iff.mp h
  obtain ⟨statement, hstatement, h⟩ := bind_eq_ok_iff.mp h
  have hwell := TableSchema.faults_eq_nil_iff.mp (issues_eq_nil_of_requireSound hsound)
  exact ⟨hwell.columns_ne_nil, statement, hstatement, (Except.ok.inj h).symm⟩

theorem exists_read_of_createTable (htypes : g.types.IsUnambiguous)
    (h : g.createTable s = .ok text) :
    ∃ outline, TableOutline.read? g.types text = some outline ∧ outline.Describes s := by
  obtain ⟨hne, statement, hstatement, rfl⟩ := exists_statement_of_createTable h
  obtain ⟨outline, hdescribes, hname, hread⟩ := exists_describes htypes hne hstatement
  refine ⟨outline, TableOutline.read?_render hname (fun hnil => ?_) hread, hdescribes⟩
  obtain ⟨first, rest, hcolumns, -⟩ := hdescribes.first_isKey
  rw [hnil, hcolumns] at hread
  cases hread

/-- With the built-in types, the statement for a table is read as an outline of the table, so that
tables with the same statement have the same name and the same columns. -/
theorem createTable_isRead (htypes : g.types = .builtIn) (h : g.createTable s = .ok text) :
    (∃ outline, TableOutline.read? .builtIn text = some outline ∧ outline.Describes s) ∧
      ∀ (g' : Generator) (s' : TableSchema), g'.types = .builtIn → g'.createTable s' = .ok text →
        s'.table = s.table ∧ (s'.columns.map fun c => (c.name, c.primitive, c.required)) =
          s.columns.map fun c => (c.name, c.primitive, c.required) := by
  have hread : ∀ (g : Generator) (s : TableSchema), g.types = .builtIn →
      g.createTable s = .ok text →
      ∃ outline, TableOutline.read? .builtIn text = some outline ∧ outline.Describes s := by
    intro g s htypes h
    rw [← htypes]
    exact exists_read_of_createTable (htypes ▸ isUnambiguous_builtIn) h
  obtain ⟨outline, houtline, hdescribes⟩ := hread g s htypes h
  refine ⟨⟨outline, houtline, hdescribes⟩, fun g' s' htypes' h' => ?_⟩
  obtain ⟨outline', houtline', hdescribes'⟩ := hread g' s' htypes' h'
  obtain rfl := Option.some.inj (houtline.symm.trans houtline')
  exact ⟨hdescribes'.name_eq.symm.trans hdescribes.name_eq,
    hdescribes'.columns_eq.symm.trans hdescribes.columns_eq⟩

/-- The names hold a line feed, a whole column definition and a reserved word. -/
def trickyTable : TableSchema :=
  ⟨"trick", "Trick", "tricks\n", false, [
    ⟨"a\n", "String", .identifier, true, "trick", "Trick", none⟩,
    ⟨"b TEXT,\n    \"c\"", "Decimal", .value, false, "b", "B", some .composes⟩,
    ⟨"select", "Text", .value, true, "select", "Select", some .requires⟩], []⟩

def trickyStatement : String :=
  "CREATE TABLE tricks\n (\n    a\n VARCHAR(255) NOT NULL PRIMARY KEY,\n" ++
    "    \"b TEXT,\n    \"\"c\"\"\" DECIMAL(18, 4),\n    \"select\" TEXT NOT NULL\n);\n"

theorem trickyTable_isRead :
    createTable ⟨.builtIn, true, .builtIn⟩ trickyTable = .ok trickyStatement ∧
      ∃ outline, TableOutline.read? .builtIn trickyStatement = some outline ∧
        outline.Describes trickyTable := by
  have h : createTable ⟨.builtIn, true, .builtIn⟩ trickyTable = .ok trickyStatement := by rfl
  exact ⟨h, (createTable_isRead rfl h).1⟩

end Generator

end Glossary.Sql
