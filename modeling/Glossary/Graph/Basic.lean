import Glossary.Diagnostic
import Glossary.Term

/-!
The graph of a dictionary: its terms by key, the statements between them, and the primitive types.
-/

namespace Glossary

/-- A statement with the key of its target. -/
structure Link where
  statement : Relationship
  target : Key
  deriving DecidableEq

def Link.relation (l : Link) : Relation :=
  l.statement.relation

def Link.ofRelationship (r : Relationship) : Link :=
  ⟨r, r.targetKey⟩

/-- A declared term as the graph holds it. -/
structure Entry where
  key : Key
  term : Term
  links : List Link
  primitive : Option String
  identifier : Option Key

namespace Term

/-- An empty type says as little as an absent one. -/
def type? (t : Term) : Option String :=
  t.declaredType.filter fun s => s != ""

def identifier? (t : Term) : Option String :=
  t.declaredIdentifier.filter fun s => s != ""

/-- The primitive type that a term is given, by its declared type or else by a statement. -/
def typeName? (t : Term) : Option String :=
  t.type?.or
    ((t.relationships.find? fun r => r.relation == .primitiveType).map Relationship.target)

/-- A scalar term stands for a value of a primitive type. -/
def isScalar (t : Term) : Bool :=
  t.type?.isSome || t.relationships.any fun r => r.relation == .primitiveType

end Term

def Entry.ofTerm (primitives : Primitives) (t : Term) : Entry where
  key := t.key
  term := t
  links := t.relationships.map Link.ofRelationship
  primitive := t.typeName?.bind fun name => primitives.spelling? (Name.key name)
  identifier := t.identifier?.map Name.key

structure Graph where
  entries : List Entry
  primitives : Primitives

namespace Graph

def ofTerms (primitives : Primitives) (terms : List Term) : Graph :=
  ⟨terms.map (Entry.ofTerm primitives), primitives⟩

def terms (g : Graph) : List Term :=
  g.entries.map Entry.term

def keys (g : Graph) : List Key :=
  g.entries.map Entry.key

def size (g : Graph) : Nat :=
  g.entries.length

def entry? (g : Graph) (key : Key) : Option Entry :=
  g.entries.find? fun e => e.key == key

def declares (g : Graph) (key : Key) : Bool :=
  (g.entry? key).isSome

/-- The name of a term or a primitive type. -/
def label? (g : Graph) (key : Key) : Option String :=
  match g.entry? key with
  | some e => some e.term.name
  | none => g.primitives.spelling? key

/-- The name to print for a key; a key without one stands for itself. -/
def label (g : Graph) (key : Key) : String :=
  (g.label? key).getD key

def isPrimitive (g : Graph) (key : Key) : Bool :=
  !g.declares key && g.primitives.contains key

/-- The primitive type of a scalar term, or the primitive type itself. -/
def primitiveType? (g : Graph) (key : Key) : Option String :=
  match g.entry? key with
  | some e => e.primitive
  | none => g.primitives.spelling? key

/-- Primitive types and the terms that have one. -/
def isScalar (g : Graph) (key : Key) : Bool :=
  (g.primitiveType? key).isSome

/-- Terms that stand for things rather than values. -/
def isEntity (g : Graph) (key : Key) : Bool :=
  (g.entry? key).any fun e => e.primitive.isNone

def links (g : Graph) (key : Key) : List Link :=
  ((g.entry? key).map Entry.links).getD []

/-- The direct targets of `is a` statements, in declaration order. -/
def parents (g : Graph) (key : Key) : List Key :=
  ((g.links key).filter fun l => l.relation == .inherits).map Link.target

/-- The `has a` and `must have a` statements, in declaration order. -/
def references (g : Graph) (key : Key) : List Link :=
  (g.links key).filter fun l => l.relation == .composes || l.relation == .requires

def compositions (g : Graph) (key : Key) : List Link :=
  (g.references key).filter fun l => l.relation == .composes

def requirements (g : Graph) (key : Key) : List Link :=
  (g.references key).filter fun l => l.relation == .requires

/-- The attribute that identifies a term in place of a column of its own. -/
def declaredIdentifier? (g : Graph) (key : Key) : Option Key :=
  (g.entry? key).bind Entry.identifier

end Graph

/-- A name that no declared term has. -/
inductive LookupError where
  | undeclared (name : String)
  | primitive (spelling : String)
  deriving DecidableEq

def LookupError.diagnostic : LookupError → Diagnostic
  | undeclared name => .undefined name none none
  | primitive spelling =>
      .undefined (spelling ++ " (a primitive type, not a term)") none none

/-- The key of the declared term with this name. -/
def Graph.keyOf (g : Graph) (name : String) : Except LookupError Key :=
  let key := Name.key name
  if g.declares key then .ok key
  else
    match g.primitives.spelling? key with
    | some spelling => .error (.primitive spelling)
    | none => .error (.undeclared name)

/-- The declared term with this name. -/
def Graph.termOf (g : Graph) (name : String) : Except LookupError Term := do
  let key ← g.keyOf name
  match g.entry? key with
  | some e => return e.term
  | none => throw (.undeclared name)

end Glossary
