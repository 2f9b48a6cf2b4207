import Glossary.Graph.Basic

/-!
The graph as a list of nodes and a list of edges. There is one edge for each source, target and
relation; a repeated statement only renews its line.
-/

namespace Glossary

/-- A declared term, or a primitive type that some statement targets. -/
inductive Node where
  | term (key : Key) (name definition : String) (primitive : Option String)
  | primitive (key : Key) (name : String)
  deriving DecidableEq

def Node.key : Node → Key
  | term key _ _ _ => key
  | primitive key _ => key

structure Edge where
  source : String
  target : String
  sourceKey : Key
  targetKey : Key
  relation : Relation
  line : Option Int
  deriving DecidableEq

namespace Graph

/-- The keys that statements target without being declared, each once, in order of first use. -/
def usedPrimitives (g : Graph) : List Key :=
  (((g.entries.flatMap Entry.links).map Link.target).filter fun key => !g.declares key).eraseDups

/-- All terms in order, then the primitive types in use. -/
def nodes (g : Graph) : List Node :=
  g.entries.map (fun e => .term e.key e.term.name e.term.definition e.primitive) ++
    g.usedPrimitives.map fun key => .primitive key (g.label key)

/-- Puts a link after the last one with its target, or at the end when there is none; a link with
the same target and relation gives way in place. -/
def placeLink : List Link → Link → List Link
  | [], l => [l]
  | first :: rest, l =>
      if first.target = l.target ∧ first.relation = l.relation then l :: rest
      else if first.target = l.target ∧ ¬ rest.any (fun other => other.target == l.target) then
        first :: l :: rest
      else first :: placeLink rest l

/-- The links of a term with those to one target side by side. -/
def groupedLinks (links : List Link) : List Link :=
  links.foldl placeLink []

/-- The edges of all terms in order; for each term by target in order of first use, and for each
target by relation in order of first use. -/
def edges (g : Graph) : List Edge :=
  g.entries.flatMap fun e =>
    (groupedLinks e.links).map fun l => {
      source := e.term.name
      target := g.label l.target
      sourceKey := e.key
      targetKey := l.target
      relation := l.relation
      line := l.statement.line }

end Graph

end Glossary
