import Glossary.Diagnostic
import Glossary.Schema.Basic
import Glossary.Sql.TypeMap
import Glossary.Text.Template

/-!
Why a schema cannot be written as SQL.
-/

namespace Glossary.Sql

open Text

inductive SqlError where
  | unmapped (primitive location : String)
  | faulty (name : String) (issues : List Issue)
  | template (fault : Template.Fault)
  | noIdentifier

/-- What a user is told. A rule that cannot be filled in and a script for a schema without columns
are mistakes of the caller and have no wording. -/
def SqlError.diagnostic? : SqlError → Option Diagnostic
  | unmapped primitive location =>
      some (.generation ("no SQL type mapped for primitive '" ++ primitive ++ "'" ++
        (if location = "" then "" else " for " ++ location)) none)
  | faulty name issues =>
      some (.generation ("cannot generate SQL for " ++ name ++ ": " ++
        "; ".intercalate (issues.map fun i => i.code ++ " at " ++ i.location)) (some name))
  | template _ => none
  | noIdentifier => none

/-- The SQL type of a primitive type that is used at the given place. -/
def TypeMap.sqlType (m : TypeMap) (primitive location : String) :
    Except SqlError String :=
  match m.find? primitive with
  | some sqlType => .ok sqlType
  | none => .error (.unmapped primitive location)

/-- Refuses a schema with structural faults. -/
def requireSound (name : String) (issues : List Issue) : Except SqlError Unit :=
  if issues.isEmpty then .ok () else .error (.faulty name issues)

/-- Refuses columns of a type without an SQL type; the first such column is reported. -/
def requireTypes (types : TypeMap) (name : String) (columns : List Column) :
    Except SqlError Unit :=
  columns.forM fun c => do
    let _ ← types.sqlType c.primitive (name ++ "." ++ c.name)
    return ()

end Glossary.Sql
