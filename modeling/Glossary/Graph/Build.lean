import Glossary.Graph.Basic

/-!
Linking terms into a graph. Every statement must have a target that its relation allows.
-/

namespace Glossary

/-- Why terms cannot be linked. -/
inductive LinkError where
  | duplicate (name : String) (line : Option Int) (first : String)
  | shadowsPrimitive (name : String)
  | undefined (name source verb : String)
  | inheritsScalar (source target type : String)
  | inheritsPrimitive (statement : Relationship) (source : String)
  | identifiedByEntity (source identifier : String)
  deriving DecidableEq

def LinkError.diagnostic : LinkError → Diagnostic
  | duplicate name line first =>
      .duplicate ("duplicate term (first declared as '" ++ first ++ "')") (some name) line
  | shadowsPrimitive name =>
      .graph ("term '" ++ name ++ "' shadows a primitive type") (some name)
  | undefined name source verb => .undefined name (some source) (some verb)
  | inheritsScalar source target type =>
      .graph ("term '" ++ source ++ "' cannot inherit from '" ++ target ++
        "', which is typed as " ++ type ++ "; declare the primitive type directly") (some source)
  | inheritsPrimitive statement source =>
      .graph ("'" ++ statement.sentence ++ "' must be a primitive type statement") (some source)
  | identifiedByEntity source identifier =>
      .graph ("term '" ++ source ++ "' is identified by '" ++ identifier ++
        "', which is not a primitive-typed term") (some source)

namespace Graph

/-- Refuses a term whose key is taken by one of the terms before it or by a primitive type. -/
def checkKey (primitives : Primitives) (before : List Term) (t : Term) : Except LinkError Unit :=
  match before.find? fun first => first.key == t.key with
  | some first => .error (.duplicate t.name t.line first.name)
  | none => if primitives.contains t.key then .error (.shadowsPrimitive t.name) else .ok ()

def checkKeys (primitives : Primitives) (before : List Term) : List Term → Except LinkError Unit
  | [] => .ok ()
  | t :: rest => do
      checkKey primitives before t
      checkKeys primitives (before ++ [t]) rest

def checkType (g : Graph) (t : Term) : Except LinkError Unit :=
  match t.type? with
  | none => .ok ()
  | some type =>
      if g.primitives.contains (Name.key type) then .ok ()
      else .error (.undefined type t.name Relation.inherits.verb)

/-- Checks the target of one statement of the term. -/
def checkLink (g : Graph) (t : Term) (l : Link) : Except LinkError Unit :=
  let r := l.statement
  if r.relation = .primitiveType then
    if g.primitives.contains l.target then .ok ()
    else .error (.undefined r.target t.name Relation.inherits.verb)
  else
    match g.entry? l.target with
    | some e =>
        if r.relation = .inherits ∧ e.term.isScalar then
          .error (.inheritsScalar t.name r.target (e.term.type?.getD "a primitive"))
        else .ok ()
    | none =>
        if g.primitives.contains l.target then
          if r.relation = .inherits then .error (.inheritsPrimitive r t.name) else .ok ()
        else .error (.undefined r.target t.name r.relation.verb)

/-- A declared identifier must name a value: a scalar term or a primitive type. -/
def checkIdentifier (g : Graph) (t : Term) : Except LinkError Unit :=
  match t.identifier? with
  | none => .ok ()
  | some identifier =>
      match g.entry? (Name.key identifier) with
      | some e =>
          if e.term.isScalar then .ok () else .error (.identifiedByEntity t.name identifier)
      | none =>
          if g.primitives.contains (Name.key identifier) then .ok ()
          else .error (.undefined identifier t.name "is identified by")

def checkEntry (g : Graph) (e : Entry) : Except LinkError Unit := do
  g.checkType e.term
  e.links.forM (g.checkLink e.term)
  g.checkIdentifier e.term

/-- The graph of the given terms, or the first fault in the order of the terms. -/
def build (primitives : Primitives) (terms : List Term) : Except LinkError Graph := do
  checkKeys primitives [] terms
  let g := ofTerms primitives terms
  g.entries.forM g.checkEntry
  return g

end Graph

end Glossary
