import Glossary.Schema.Basic
import Glossary.Graph.Enumeration

/-!
Schemas and graphs as JSON documents.
-/

namespace Glossary

open Text

def Issue.json (i : Issue) : Json :=
  .obj [("stage", .str i.stage.title), ("code", .str i.code), ("location", .str i.location),
    ("message", .str i.message), ("details", .obj i.details)]

def Column.fields (c : Column) : List (String × Json) := [
  ("name", .str c.name), ("primitive", .str c.primitive), ("role", .str c.role.name),
  ("required", .bool c.required), ("term", .str c.term), ("term_label", .str c.label),
  ("relation", Json.optional (c.relation.map Relation.code))]

def ViewColumn.fields (c : ViewColumn) : List (String × Json) :=
  c.toColumn.fields ++ [("alias", .str c.aliasName), ("owner", .str c.owner)]

def JoinSource.name : JoinSource → String
  | table => "physical"
  | view => "logical"

def Join.json (j : Join) : Json :=
  .obj [("alias", .str j.aliasName), ("relation", .str j.relation.code),
    ("source", .str j.source.name), ("table", .str j.table), ("target", .str j.target),
    ("target_label", .str j.targetLabel), ("parent_alias", .str j.parentAlias),
    ("parent_term", .str j.parentTerm), ("parent_label", .str j.parentLabel),
    ("fk_column", .str j.fkColumn), ("key_column", .str j.keyColumn),
    ("join_type", .str j.kind.keyword)]

def TableSchema.json (s : TableSchema) : Json :=
  .obj [("term", .str s.term), ("label", .str s.label), ("table_name", .str s.table),
    ("scalar", .bool s.scalar), ("columns", .arr (s.columns.map fun c => .obj c.fields)),
    ("issues", .arr (s.issues.map Issue.json))]

mutual

/-- The document of a view, with those of the ancestors inside it. -/
def ViewSchema.json : ViewSchema → Json
  | ⟨term, label, view, baseTable, baseAlias, columns, joins, ancestors, issues⟩ =>
      .obj [("term", .str term), ("label", .str label), ("view_name", .str view),
        ("base_table", .str baseTable), ("base_alias", .str baseAlias),
        ("columns", .arr (columns.map fun c => .obj c.fields)),
        ("joins", .arr (joins.map Join.json)), ("ancestors", .arr (schemasJson ancestors)),
        ("issues", .arr (issues.map Issue.json))]

def schemasJson : List ViewSchema → List Json
  | [] => []
  | s :: rest => s.json :: schemasJson rest

end

def Schema.json : Schema → Json
  | table s => s.json
  | view s => s.json

/-- A schema as a document that keeps all characters that need no escape. -/
def Schema.document (s : Schema) : String :=
  s.json.render .unicode

def lineJson (line : Option Int) : Json :=
  (line.map Json.int).getD .null

def Node.json : Node → Json
  | .term key name definition type =>
      .obj [("key", .str key), ("name", .str name), ("kind", .str "term"),
        ("definition", .str definition), ("primitive", Json.optional type)]
  | .primitive key name =>
      .obj [("key", .str key), ("name", .str name), ("kind", .str "primitive"),
        ("definition", .null), ("primitive", .null)]

def Edge.json (e : Edge) : Json :=
  .obj [("source", .str e.source), ("target", .str e.target), ("source_key", .str e.sourceKey),
    ("target_key", .str e.targetKey), ("kind", .str e.relation.code), ("line", lineJson e.line)]

def Graph.json (g : Graph) : Json :=
  .obj [("nodes", .arr (g.nodes.map Node.json)), ("edges", .arr (g.edges.map Edge.json))]

/-- A graph as a document of printable ASCII. -/
def Graph.document (g : Graph) : String :=
  g.json.render .ascii

end Glossary
