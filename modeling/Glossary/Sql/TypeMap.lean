import Glossary.Diagnostic

/-!
The SQL types of primitive types.
-/

namespace Glossary.Sql

/-- SQL types by the spelling of the primitive type. -/
structure TypeMap where
  entries : List (String × String)

namespace TypeMap

def builtIn : TypeMap := ⟨[
  ("String", "VARCHAR(255)"), ("Text", "TEXT"), ("Integer", "INTEGER"),
  ("Decimal", "DECIMAL(18, 4)"), ("Float", "DOUBLE"), ("Boolean", "BOOLEAN"), ("Date", "DATE"),
  ("Timestamp", "TIMESTAMP")]⟩

def find? (m : TypeMap) (primitive : String) : Option String :=
  m.entries.lookup primitive

/-- A known primitive type keeps its place and takes the new SQL type. -/
def insert (m : TypeMap) (primitive sqlType : String) : TypeMap :=
  if (m.find? primitive).isSome then
    ⟨m.entries.map fun entry => if entry.1 == primitive then (primitive, sqlType) else entry⟩
  else ⟨m.entries ++ [(primitive, sqlType)]⟩

/-- The built-in types with the given ones added or put in their place. -/
def extend (extra : List (String × String)) : TypeMap :=
  extra.foldl (fun m entry => m.insert entry.1 entry.2) builtIn

end TypeMap

end Glossary.Sql
