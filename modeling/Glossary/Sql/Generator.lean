import Glossary.Schema.Validation
import Glossary.Sql.Script
import Glossary.Sql.Table

/-!
Statements and scripts for schemas. A schema with structural faults or with a type that SQL does
not know gets neither.
-/

namespace Glossary.Sql

structure Generator where
  types : TypeMap
  inlineViews : Bool
  ranges : RangeTable

namespace Generator

/-- The statement that creates the table. -/
def createTable (g : Generator) (s : TableSchema) : Except SqlError String := do
  requireSound s.table s.faults
  let statement ← CreateTable.ofSchema g.types s
  return statement.render

/-- The statement that creates the view. -/
def createView (g : Generator) (s : ViewSchema) : Except SqlError String := do
  requireSound s.view s.faults
  requireTypes g.types s.view (s.columns.map ViewColumn.toColumn)
  return (CreateView.ofSchema g.inlineViews s).render

def create (g : Generator) : Schema → Except SqlError String
  | .table s => g.createTable s
  | .view s => g.createView s

def tableScript (g : Generator) (s : TableSchema) : Except SqlError Script := do
  requireSound s.table s.faults
  requireTypes g.types s.table s.columns
  Script.ofTable g.ranges s

def viewScript (g : Generator) (s : ViewSchema) : Except SqlError Script := do
  requireSound s.view s.faults
  requireTypes g.types s.view (s.columns.map ViewColumn.toColumn)
  Script.ofView g.ranges s

def script (g : Generator) : Schema → Except SqlError Script
  | .table s => g.tableScript s
  | .view s => g.viewScript s

/-- The script of a schema whose structure and types are not looked at. -/
def uncheckedScript (g : Generator) : Schema → Except SqlError Script
  | .table s => Script.ofTable g.ranges s
  | .view s => Script.ofView g.ranges s

end Generator

end Glossary.Sql
