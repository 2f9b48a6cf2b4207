import Glossary.Schema.Basic

/-!
Structural faults of schemas. A schema with a fault is not written as SQL.
-/

namespace Glossary

open Text

/-- The names that have occurred before in the list, with the checks that each column gets first. -/
def TableSchema.columnFaults (table : String) (seen : List String) :
    List Column → List Issue
  | [] => []
  | c :: rest =>
      let faults : List Issue :=
        if c.name = "" then
          [⟨.physical, IssueCode.emptyColumnName.text, table,
            table ++ ": column for term '" ++ c.label ++ "' has no name", []⟩]
        else if c.name ∈ seen then
          [⟨.physical, IssueCode.duplicateColumn.text, table ++ "." ++ c.name,
            table ++ ": column '" ++ c.name ++ "' appears more than once", []⟩]
        else []
      faults ++ columnFaults table (c.name :: seen) rest

/-- Whether the first column is a key that is never null. -/
def TableSchema.keyFaults (table : String) (identifier : Column) : List Issue :=
  if identifier.role ≠ .identifier then
    [⟨.physical, IssueCode.missingKey.text, table,
      table ++ ": first column '" ++ identifier.name ++ "' is not the term's identifier",
      [("column", .str identifier.name), ("role", .str identifier.role.name)]⟩]
  else if !identifier.required then
    [⟨.physical, IssueCode.nullableKey.text, table ++ "." ++ identifier.name,
      table ++ ": identifier '" ++ identifier.name ++ "' must be NOT NULL", []⟩]
  else []

/-- The faults of a table: its name, its key, and the names of its columns. -/
def TableSchema.faults (s : TableSchema) : List Issue :=
  let unnamed : List Issue :=
    if s.table = "" then
      [⟨.physical, IssueCode.missingTableName.text, s.term,
        s.label ++ ": physical schema has no table name", []⟩]
    else []
  match s.columns with
  | [] =>
      unnamed ++
        [⟨.physical, IssueCode.noColumns.text, s.table,
          s.table ++ ": physical schema has no columns", []⟩]
  | identifier :: _ =>
      unnamed ++ keyFaults s.table identifier ++ columnFaults s.table [] s.columns

/-- The faults of joins; `scope` holds the aliases that stand before them. -/
def ViewSchema.joinFaults (view : String) (scope : List String) : List Join → List Issue
  | [] => []
  | j :: rest =>
      let parent : List Issue :=
        if j.parentAlias ∈ scope then []
        else
          [⟨.logical, IssueCode.joinParentUnknown.text, view ++ "." ++ j.aliasName,
            view ++ ": join '" ++ j.aliasName ++ "' on " ++ j.table ++ " refers to alias '" ++
              j.parentAlias ++ "' before it is joined",
            [("alias", .str j.aliasName), ("parent_alias", .str j.parentAlias)]⟩]
      let repeated : List Issue :=
        if j.aliasName ∈ scope then
          [⟨.logical, IssueCode.duplicateAlias.text, view ++ "." ++ j.aliasName,
            view ++ ": alias '" ++ j.aliasName ++ "' is used twice", []⟩]
        else []
      parent ++ repeated ++ joinFaults view (j.aliasName :: scope) rest

/-- The faults of columns in the scope of the given aliases; `seen` holds the names before them. -/
def ViewSchema.columnFaults (view : String) (scope seen : List String) :
    List ViewColumn → List Issue
  | [] => []
  | c :: rest =>
      let unknown : List Issue :=
        if c.aliasName ∈ scope then []
        else
          [⟨.logical, IssueCode.columnAliasUnknown.text, view ++ "." ++ c.name,
            view ++ ": column '" ++ c.name ++ "' reads from unknown alias '" ++ c.aliasName ++ "'",
            [("column", .str c.name), ("alias", .str c.aliasName)]⟩]
      let repeated : List Issue :=
        if c.name ∈ seen then
          [⟨.logical, IssueCode.duplicateColumn.text, view ++ "." ++ c.name,
            view ++ ": column '" ++ c.name ++ "' appears more than once", []⟩]
        else []
      unknown ++ repeated ++ columnFaults view scope (c.name :: seen) rest

/-- Whether the first column is the identifier of the base table. -/
def ViewSchema.keyFaults (s : ViewSchema) (identifier : ViewColumn) : List Issue :=
  if identifier.role ≠ .identifier ∨ identifier.aliasName ≠ s.baseAlias then
    [⟨.logical, IssueCode.missingKey.text, s.view,
      s.view ++ ": first column must be the identifier of " ++ s.baseTable,
      [("column", .str identifier.name), ("alias", .str identifier.aliasName)]⟩]
  else []

/-- The aliases that the columns of a view may read from. -/
def ViewSchema.scope (s : ViewSchema) : List String :=
  s.baseAlias :: s.joins.map Join.aliasName

/-- The faults of a view: its key, and the aliases and names of its joins and columns. -/
def ViewSchema.faults (s : ViewSchema) : List Issue :=
  match s.columns with
  | [] =>
      [⟨.logical, IssueCode.noColumns.text, s.view,
        s.view ++ ": logical schema has no columns", []⟩]
  | identifier :: _ =>
      s.keyFaults identifier ++ joinFaults s.view [s.baseAlias] s.joins ++
        columnFaults s.view s.scope [] s.columns

end Glossary
