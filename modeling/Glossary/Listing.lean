import Glossary.Schema.Basic

/-!
Listings of the columns of a schema for people to read: name, type, and the statement behind the
column.
-/

namespace Glossary.Listing

structure Row where
  name : String
  primitive : String
  detail : String
  deriving DecidableEq

/-- The row of a column that `owner` supplies to a schema of the term with this label. -/
def Row.ofColumn (label owner : String) (c : Column) : Row where
  name := c.name
  primitive := c.primitive
  detail :=
    match c.relation with
    | none => if owner = label then "identifier" else "identifier of " ++ owner
    | some relation =>
        owner ++ " " ++ relation.verb ++ " " ++ c.label ++
          (if c.required then ", not null" else "")

def rows : Schema → List Row
  | .table s => s.columns.map (Row.ofColumn s.label s.label)
  | .view s => s.columns.map fun c => Row.ofColumn s.label c.owner c.toColumn

/-- Blanks after a text fill it up to a width. -/
def fillUp (width : Nat) (text : String) : String :=
  text ++ String.ofList (List.replicate (width - text.length) ' ')

def width (texts : List String) : Nat :=
  (texts.map String.length).foldl max 0

def renderRow (nameWidth typeWidth : Nat) (r : Row) : String :=
  fillUp nameWidth r.name ++ "  " ++ fillUp typeWidth r.primitive ++ "  " ++ r.detail

/-- The rows with names and types in columns of even width; there is no listing without rows. -/
def render? (s : Schema) : Option String :=
  let rs := rows s
  if rs.isEmpty then none
  else
    let nameWidth := width (rs.map Row.name)
    let typeWidth := width (rs.map Row.primitive)
    some ("\n".intercalate (rs.map (renderRow nameWidth typeWidth)) ++ "\n")

end Glossary.Listing
