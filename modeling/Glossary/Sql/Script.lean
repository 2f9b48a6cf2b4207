import Glossary.Sql.Error
import Glossary.Sql.Identifier

/-!
Validation scripts. Every check counts failures and passes when there are none.
-/

namespace Glossary.Sql

open Text

/-- What is checked about a table or view. -/
inductive Check where
  | hasRows (object : String)
  | notNull (object column : String)
  | unique (object column : String)
  | existsIn (object column table key : String)
  | noneSatisfies (object column predicate : String)
  deriving DecidableEq

namespace Check

/-- The statement that counts the failures. -/
def sql : Check → String
  | hasRows object =>
      "SELECT CASE WHEN COUNT(*) = 0 THEN 1 ELSE 0 END AS failures FROM " ++ quote object ++ ";"
  | notNull object column =>
      "SELECT COUNT(*) AS failures FROM " ++ quote object ++ " WHERE " ++ quote column ++
        " IS NULL;"
  | unique object column =>
      "SELECT COUNT(*) AS failures FROM (\n    SELECT " ++ quote column ++ " FROM " ++
        quote object ++ " GROUP BY " ++ quote column ++
        " HAVING COUNT(*) > 1\n) AS duplicates;"
  | existsIn object column table key =>
      "SELECT COUNT(*) AS failures\nFROM " ++ quote object ++ " AS s\nWHERE s." ++ quote column ++
        " IS NOT NULL\n  AND NOT EXISTS (\n    SELECT 1 FROM " ++ quote table ++
        " AS r WHERE r." ++ quote key ++ " = s." ++ quote column ++ "\n  );"
  | noneSatisfies object _ predicate =>
      "SELECT COUNT(*) AS failures FROM " ++ quote object ++ " WHERE " ++ predicate ++ ";"

/-- The column that a check reads. -/
def column? : Check → Option String
  | hasRows _ => none
  | notNull _ column => some column
  | unique _ column => some column
  | existsIn _ column _ _ => some column
  | noneSatisfies _ column _ => some column

/-- The table that the values must exist in. -/
def target? : Check → Option String
  | existsIn _ _ table _ => some table
  | _ => none

end Check

structure Assertion where
  rule : String
  description : String
  check : Check
  deriving DecidableEq

/-- The assertions about one table or view. -/
structure Script where
  object : String
  layer : Layer
  term : String
  assertions : List Assertion
  deriving DecidableEq

namespace Script

def rules (s : Script) : List String :=
  s.assertions.map Assertion.rule

def count (s : Script) (rule : String) : Nat :=
  s.assertions.countP fun a => a.rule == rule

/-- Assertions with their numbers, from `number` on. -/
def renderFrom (number : Nat) : List Assertion → List String
  | [] => []
  | a :: rest =>
      ("-- [" ++ toString number ++ "] " ++ a.rule ++ ": " ++ a.description ++ "\n" ++
        a.check.sql) :: renderFrom (number + 1) rest

def render (s : Script) : String :=
  "-- Validation tests for " ++ s.object ++ " (" ++ s.layer.name ++ " " ++ s.term ++ ")\n" ++
    "-- Each statement returns one row; failures = 0 means the check passed.\n\n" ++
    "\n\n".intercalate (renderFrom 1 s.assertions) ++ "\n"

end Script

/-- A predicate that no value of a primitive type may satisfy; `column` in braces stands for the
column. -/
structure RangeRule where
  name : String
  description : String
  violation : String
  deriving DecidableEq

/-- The range rules of each primitive type. -/
structure RangeTable where
  entries : List (String × List RangeRule)

namespace RangeTable

def builtIn : RangeTable := ⟨[
  ("Date", [⟨"not_in_future", "is not in the future", "\x7bcolumn\x7d > CURRENT_DATE"⟩]),
  ("Timestamp",
    [⟨"not_in_future", "is not in the future", "\x7bcolumn\x7d > CURRENT_TIMESTAMP"⟩])]⟩

def rules (t : RangeTable) (primitive : String) : List RangeRule :=
  (t.entries.lookup primitive).getD []

/-- Adds a rule after those that its primitive type has. -/
def register (t : RangeTable) (primitive : String) (rule : RangeRule) : RangeTable :=
  if (t.entries.lookup primitive).isSome then
    ⟨t.entries.map fun entry =>
      if entry.1 == primitive then (entry.1, entry.2 ++ [rule]) else entry⟩
  else ⟨t.entries ++ [(primitive, [rule])]⟩

/-- The assertion that a rule makes about a column. -/
def assertion (object : String) (c : Column) (rule : RangeRule) :
    Except SqlError Assertion :=
  match Template.fill "column" (quote c.name) rule.violation with
  | .error fault => .error (.template fault)
  | .ok predicate =>
      .ok ⟨"range_" ++ rule.name, c.name ++ " " ++ rule.description,
        .noneSatisfies object c.name predicate⟩

/-- The range assertions about the columns of a table or view, column by column. -/
def assertions (t : RangeTable) (object : String) (columns : List Column) :
    Except SqlError (List Assertion) := do
  let found ← columns.mapM fun c => (t.rules c.primitive).mapM (assertion object c)
  return found.flatten

end RangeTable

/-- The assertions that every table and view gets for its identifier. -/
def identifierAssertions (object identifier : String) : List Assertion := [
  ⟨"existence", object ++ " contains at least one row", .hasRows object⟩,
  ⟨"identifier_not_null", identifier ++ " is never null", .notNull object identifier⟩,
  ⟨"identifier_unique", identifier ++ " is unique", .unique object identifier⟩]

/-- The statement of the term with this label that a column goes back to. -/
def provenance (label : String) (c : Column) : String :=
  match c.relation with
  | none => "identifier of " ++ label
  | some relation => label ++ " " ++ relation.verb ++ " " ++ c.label

/-- Every value of a column that refers to another term must exist in the table of that term. -/
def columnAssertion (rule : String) (s : TableSchema) (c : Column) : Assertion :=
  let target := Name.table c.label
  ⟨rule, "every " ++ c.name ++ " exists in " ++ target ++ " (" ++ provenance s.label c ++ ")",
    .existsIn s.table c.name target c.name⟩

/-- The script of a table. -/
def Script.ofTable (ranges : RangeTable) (s : TableSchema) : Except SqlError Script :=
  match s.columns with
  | [] => .error .noIdentifier
  | identifier :: rest => do
      let required := (rest.filter Column.required).map fun c =>
        (⟨"not_null", c.name ++ " is never null (" ++ provenance s.label c ++ ")",
          .notNull s.table c.name⟩ : Assertion)
      let references := (rest.filter fun c => c.role == .reference).map
        (columnAssertion "referential_integrity" s)
      let inherited := (rest.filter fun c => c.role == .inheritedIdentifier).map
        (columnAssertion "inheritance_integrity" s)
      let ranges ← ranges.assertions s.table s.columns
      return ⟨s.table, .physical, s.label,
        identifierAssertions s.table identifier.name ++ required ++ references ++ inherited ++
          ranges⟩

/-- Every value that a join follows must exist in the table of the joined term. The values are
read from the view when it shows the column of the right alias, and from the table that holds them
otherwise. -/
def joinAssertion (rule : String) (s : ViewSchema) (j : Join) : Assertion :=
  let target := Name.table j.targetLabel
  let object :=
    if (s.column? j.fkColumn).any fun c => c.aliasName == j.parentAlias then s.view
    else Name.table j.parentLabel
  ⟨rule,
    "every " ++ j.fkColumn ++ " exists in " ++ target ++ " (" ++ j.parentLabel ++ " " ++
      j.relation.verb ++ " " ++ j.targetLabel ++ ")",
    .existsIn object j.fkColumn target j.keyColumn⟩

/-- The script of a view. -/
def Script.ofView (ranges : RangeTable) (s : ViewSchema) : Except SqlError Script :=
  match s.columns with
  | [] => .error .noIdentifier
  | identifier :: rest => do
      let required := (rest.filter fun c => c.relation == some .requires && c.required).map
        fun c =>
          (⟨"not_null",
            c.name ++ " is never null (" ++ c.owner ++ " must have a " ++ c.label ++ ")",
            .notNull s.view c.name⟩ : Assertion)
      let references := s.referenceJoins.map (joinAssertion "referential_integrity" s)
      let inherited := s.inheritanceJoins.map (joinAssertion "inheritance_integrity" s)
      let ranges ← ranges.assertions s.view (s.columns.map ViewColumn.toColumn)
      return ⟨s.view, .logical, s.label,
        identifierAssertions s.view identifier.name ++ required ++ references ++ inherited ++
          ranges⟩

end Glossary.Sql
