import Glossary.Text.Blank
import Glossary.Text.Lowercase

/-!
Names of business terms: the key that identifies a term, and the names derived from it for columns,
tables and views.
-/

namespace Glossary

/-- The identity of a term or a primitive type: its name with letter case and spacing forgotten. -/
abbrev Key := String

namespace Name

open Text

/-- The identity of a name: words joined by single spaces, in lower case. -/
def key (name : String) : Key :=
  String.ofList (lower (collapse name.toList))

/-- A name with its words joined by single spaces; letter case is kept. -/
def display (name : String) : String :=
  String.ofList (collapse name.toList)

/-- The characters of which database names are made. -/
def isSnakeChar (c : Char) : Bool :=
  ('0' ≤ c && c ≤ '9') || ('a' ≤ c && c ≤ 'z')

def snakeChars (cs : List Char) : List Char :=
  ['_'].intercalate (runs isSnakeChar (lower cs))

/-- The stretches of digits and letters of the lower-case form, joined by single underscores. -/
def snakeCase (name : String) : String :=
  String.ofList (snakeChars name.toList)

/-- The identifier column that a term has unless it declares another. -/
def identifierColumn (name : String) : String :=
  snakeCase name ++ "_id"

def table (name : String) : String :=
  "physical_" ++ snakeCase name

def view (name : String) : String :=
  "logical_" ++ snakeCase name

end Name

end Glossary
