import Glossary.Resolve.Inheritance

/-!
The table of a term: its identifier, then the identifiers of its ancestors, then one column for each
`has a` and `must have a` statement.
-/

namespace Glossary

structure ResolutionOptions where
  identifierType : String
  strict : Bool

def ResolutionOptions.standard : ResolutionOptions := ⟨"String", false⟩

namespace Graph

/-- The name and type of the column that identifies a term. A scalar stands for its own value, and a
term may declare one of its attributes. -/
def identifierSource (g : Graph) (o : ResolutionOptions) (key : Key) : String × String :=
  match g.primitiveType? key with
  | some primitive => (Name.snakeCase (g.label key), primitive)
  | none =>
      match (g.declaredIdentifier? key).filter fun k => k != "" with
      | some declared =>
          (Name.snakeCase (g.label declared),
            (g.primitiveType? declared).getD o.identifierType)
      | none => (Name.identifierColumn (g.label key), o.identifierType)

/-- The column that identifies a term in its own table. -/
def identifierColumn (g : Graph) (o : ResolutionOptions) (key : Key) : Column where
  name := (g.identifierSource o key).1
  primitive := (g.identifierSource o key).2
  role := .identifier
  required := true
  term := key
  label := g.label key
  relation := none

/-- The column that holds the identifier of an ancestor. -/
def inheritedColumn (g : Graph) (o : ResolutionOptions) (ancestor : Key) : Column :=
  { g.identifierColumn o ancestor with
    role := .inheritedIdentifier
    required := false
    relation := some .inherits }

/-- The column of a `has a` or `must have a` statement. -/
def referenceColumn (g : Graph) (o : ResolutionOptions) (l : Link) : Column :=
  { g.identifierColumn o l.target with
    role := if g.isScalar l.target then .value else .reference
    required := l.relation == .requires
    relation := some l.relation }

/-- All columns that are contributed to the table of a term, in order. -/
def contributions (g : Graph) (o : ResolutionOptions) (key : Key) : List Column :=
  g.identifierColumn o key ::
    ((g.ancestors key).map (g.inheritedColumn o) ++ (g.references key).map (g.referenceColumn o))

/-- The table of a declared term. -/
def table (g : Graph) (o : ResolutionOptions) (key : Key) :
    Except ResolutionError TableSchema := do
  g.requireAcyclic key
  let label := g.label key
  let draft ← Draft.empty.addAll id ⟨.physical, label, o.strict⟩ (g.contributions o key)
  return {
    term := key
    label := label
    table := Name.table label
    scalar := g.isScalar key
    columns := draft.columns
    issues := draft.issues }

end Graph

end Glossary
