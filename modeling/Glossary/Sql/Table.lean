import Glossary.Sql.Error
import Glossary.Sql.Query

/-!
The statement that creates a table.
-/

namespace Glossary.Sql

structure ColumnDefinition where
  name : String
  sqlType : String
  required : Bool
  isKey : Bool
  deriving DecidableEq

structure CreateTable where
  name : String
  columns : List ColumnDefinition
  deriving DecidableEq

def ColumnDefinition.render (c : ColumnDefinition) : String :=
  indentation ++ quote c.name ++ " " ++ c.sqlType ++ (if c.required then " NOT NULL" else "") ++
    (if c.isKey then " PRIMARY KEY" else "")

def CreateTable.render (t : CreateTable) : String :=
  "CREATE TABLE " ++ quote t.name ++ " (\n" ++
    ",\n".intercalate (t.columns.map ColumnDefinition.render) ++ "\n);\n"

/-- The definition of a column of the table with this name. -/
def ColumnDefinition.ofColumn (types : TypeMap) (table : String) (isKey : Bool) (c : Column) :
    Except SqlError ColumnDefinition := do
  let sqlType ← types.sqlType c.primitive (table ++ "." ++ c.name)
  return ⟨c.name, sqlType, c.required, isKey⟩

/-- The statement for a table; its first column is the key. -/
def CreateTable.ofSchema (types : TypeMap) (s : TableSchema) :
    Except SqlError CreateTable :=
  match s.columns with
  | [] => .ok ⟨s.table, []⟩
  | identifier :: rest => do
      let first ← ColumnDefinition.ofColumn types s.table true identifier
      let others ← rest.mapM (ColumnDefinition.ofColumn types s.table false)
      return ⟨s.table, first :: others⟩

end Glossary.Sql
