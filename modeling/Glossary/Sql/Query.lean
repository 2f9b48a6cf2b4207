import Glossary.Schema.Basic
import Glossary.Sql.Identifier
import Glossary.Text.Lines

/-!
The queries behind views, and their written form.
-/

namespace Glossary.Sql

open Text

/-- A column of one of the tables in scope. -/
structure ColumnRef where
  aliasName : String
  column : String
  deriving DecidableEq

/-- A join of a table or view by equality of one column on either side. -/
structure JoinClause where
  kind : JoinKind
  table : String
  aliasName : String
  key : ColumnRef
  reference : ColumnRef
  deriving DecidableEq

/-- A query that starts from one table, joins others, and gives out columns under their own names.
-/
structure Select where
  output : List ColumnRef
  table : String
  aliasName : String
  joins : List JoinClause
  deriving DecidableEq

def indentation : String := "    "

def ColumnRef.render (r : ColumnRef) : String :=
  r.aliasName ++ "." ++ quote r.column

def ColumnRef.renderOutput (r : ColumnRef) : String :=
  indentation ++ r.render ++ " AS " ++ quote r.column

def JoinClause.render (j : JoinClause) : String :=
  j.kind.keyword ++ " " ++ quote j.table ++ " AS " ++ j.aliasName ++ " ON " ++ j.key.render ++
    " = " ++ j.reference.render

def Select.render (q : Select) : String :=
  "\n".intercalate
    ("SELECT" :: ",\n".intercalate (q.output.map ColumnRef.renderOutput) ::
      ("FROM " ++ quote q.table ++ " AS " ++ q.aliasName) :: q.joins.map JoinClause.render)

/-- Indents every line that is not empty. -/
def indent (text : String) : String :=
  "\n".intercalate ((lines text.toList).map fun line =>
    if line.isEmpty then "" else indentation ++ String.ofList line)

/-- A view with the views that are defined inside its statement. -/
structure CreateView where
  name : String
  definitions : List (String × Select)
  body : Select
  deriving DecidableEq

def CreateView.renderDefinition (definition : String × Select) : String :=
  quote definition.1 ++ " AS (\n" ++ indent definition.2.render ++ "\n)"

def CreateView.render (v : CreateView) : String :=
  let definitions :=
    if v.definitions.isEmpty then []
    else ["WITH " ++ ",\n".intercalate (v.definitions.map renderDefinition)]
  "\n".intercalate
    (("CREATE VIEW " ++ quote v.name ++ " AS") :: definitions ++ [v.body.render]) ++ ";\n"

/-- The join clause of one step of a join path. -/
def JoinClause.ofJoin (j : Join) : JoinClause where
  kind := j.kind
  table := j.table
  aliasName := j.aliasName
  key := ⟨j.aliasName, j.keyColumn⟩
  reference := ⟨j.parentAlias, j.fkColumn⟩

/-- The query of a view. -/
def Select.ofSchema (s : ViewSchema) : Select where
  output := s.columns.map fun c => ⟨c.aliasName, c.name⟩
  table := s.baseTable
  aliasName := s.baseAlias
  joins := s.joins.map JoinClause.ofJoin

mutual

/-- Extends a list of views by those that a view is made from. -/
def viewsBelow (found : List ViewSchema) : ViewSchema → List ViewSchema
  | ⟨_, _, _, _, _, _, _, ancestors, _⟩ => addViews found ancestors

/-- Extends a list of views by the given ones, each after those it is made from, and none with a
name that is there already. -/
def addViews (found : List ViewSchema) : List ViewSchema → List ViewSchema
  | [] => found
  | s :: rest =>
      if found.any fun other => other.view == s.view then addViews found rest
      else addViews (viewsBelow found s ++ [s]) rest

end

/-- The views that a view is made from, each after those it is itself made from. -/
def embeddedViews (s : ViewSchema) : List ViewSchema :=
  viewsBelow [] s

/-- The statement for a view; with `inlineViews` it defines all views that it is made from. -/
def CreateView.ofSchema (inlineViews : Bool) (s : ViewSchema) : CreateView where
  name := s.view
  definitions :=
    if inlineViews then (embeddedViews s).map fun a => (a.view, Select.ofSchema a) else []
  body := Select.ofSchema s

end Glossary.Sql
