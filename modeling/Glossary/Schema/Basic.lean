import Glossary.Term
import Glossary.Text.Json

/-!
Resolved schemas: the table of a term, and the view that joins it with the terms it refers to and
the terms it inherits from.
-/

namespace Glossary

open Text

/-- Which schema of a term is meant. -/
inductive Layer where
  | physical
  | logical
  deriving DecidableEq

def Layer.name : Layer → String
  | physical => "physical"
  | logical => "logical"

def Layer.ofName? : String → Option Layer
  | "physical" => some .physical
  | "logical" => some .logical
  | _ => none

/-- How an anomaly names the layer it was found in. -/
def Layer.title : Layer → String
  | physical => "Physical"
  | logical => "Logical"

/-- The kinds of anomalies. -/
inductive IssueCode where
  | ambiguousIdentifier
  | duplicateColumn
  | missingTableName
  | noColumns
  | missingKey
  | nullableKey
  | emptyColumnName
  | joinParentUnknown
  | duplicateAlias
  | columnAliasUnknown
  deriving DecidableEq

def IssueCode.text : IssueCode → String
  | ambiguousIdentifier => "AMBIGUOUS_IDENTIFIER"
  | duplicateColumn => "DUPLICATE_COLUMN"
  | missingTableName => "MISSING_TABLE_NAME"
  | noColumns => "NO_COLUMNS"
  | missingKey => "MISSING_PK"
  | nullableKey => "NULLABLE_PK"
  | emptyColumnName => "EMPTY_COLUMN_NAME"
  | joinParentUnknown => "JOIN_PARENT_UNKNOWN"
  | duplicateAlias => "DUPLICATE_ALIAS"
  | columnAliasUnknown => "COLUMN_ALIAS_UNKNOWN"

/-- An anomaly that does not stop the work on a schema. -/
structure Issue where
  stage : Layer
  code : String
  location : String
  message : String
  details : List (String × Json)

inductive Role where
  | identifier
  | inheritedIdentifier
  | value
  | reference
  deriving DecidableEq

def Role.name : Role → String
  | identifier => "identifier"
  | inheritedIdentifier => "inherited_identifier"
  | value => "attribute"
  | reference => "reference"

/-- A column of a table: the term it carries, and the relation that brought it in. -/
structure Column where
  name : String
  primitive : String
  role : Role
  required : Bool
  term : Key
  label : String
  relation : Option Relation
  deriving DecidableEq

/-- A column of a view with the alias that supplies it and the label of the term that owns it. -/
structure ViewColumn extends Column where
  aliasName : String
  owner : String
  deriving DecidableEq

structure TableSchema where
  term : Key
  label : String
  table : String
  scalar : Bool
  columns : List Column
  issues : List Issue

/-- What a join reads from. -/
inductive JoinSource where
  | table
  | view
  deriving DecidableEq

inductive JoinKind where
  | inner
  | left
  deriving DecidableEq

def JoinKind.keyword : JoinKind → String
  | inner => "INNER JOIN"
  | left => "LEFT JOIN"

/-- One step of the join path of a view: `keyColumn` of the joined side meets `fkColumn` of the side
with `parentAlias`. -/
structure Join where
  aliasName : String
  relation : Relation
  source : JoinSource
  table : String
  target : Key
  targetLabel : String
  parentAlias : String
  parentTerm : Key
  parentLabel : String
  fkColumn : String
  keyColumn : String
  kind : JoinKind
  deriving DecidableEq

/-- The statement that a join follows. -/
def Join.edge (j : Join) : Key × Key × Relation :=
  (j.parentTerm, j.target, j.relation)

/-- The alias of the table that a view starts from. -/
def baseAlias : String := "t0"

/-- A view, with the views of those ancestors that it joins as views. -/
structure ViewSchema where
  term : Key
  label : String
  view : String
  baseTable : String
  baseAlias : String
  columns : List ViewColumn
  joins : List Join
  ancestors : List ViewSchema
  issues : List Issue

/-- A schema of either layer. -/
inductive Schema where
  | table (schema : TableSchema)
  | view (schema : ViewSchema)

namespace TableSchema

def columnNames (s : TableSchema) : List String :=
  s.columns.map Column.name

/-- The first column identifies the rows. -/
def identifier? (s : TableSchema) : Option Column :=
  s.columns.head?

def column? (s : TableSchema) (name : String) : Option Column :=
  s.columns.find? fun c => c.name == name

end TableSchema

namespace ViewSchema

def columnNames (s : ViewSchema) : List String :=
  s.columns.map fun c => c.name

/-- The first column identifies the rows. -/
def identifier? (s : ViewSchema) : Option ViewColumn :=
  s.columns.head?

def column? (s : ViewSchema) (name : String) : Option ViewColumn :=
  s.columns.find? fun c => c.name == name

/-- The first join of every statement that is not among the ones seen. -/
def distinctEdges (seen : List (Key × Key × Relation)) : List Join → List Join
  | [] => []
  | j :: rest =>
      if j.edge ∈ seen then distinctEdges seen rest
      else j :: distinctEdges (j.edge :: seen) rest

def referenceJoins (s : ViewSchema) : List Join :=
  distinctEdges [] (s.joins.filter fun j => j.relation == .composes || j.relation == .requires)

def inheritanceJoins (s : ViewSchema) : List Join :=
  distinctEdges [] (s.joins.filter fun j => j.relation == .inherits)

end ViewSchema

namespace Schema

def columnNames : Schema → List String
  | table s => s.columnNames
  | view s => s.columnNames

def columns : Schema → List Column
  | table s => s.columns
  | view s => s.columns.map ViewColumn.toColumn

end Schema

end Glossary
