import Glossary.Name

/-!
Business terms and the statements that relate them.
-/

namespace Glossary

/-- How a statement relates its term to the target. -/
inductive Relation where
  | inherits
  | composes
  | requires
  | primitiveType
  deriving DecidableEq

/-- The verb that stands between the two names. -/
def Relation.verb : Relation → String
  | .inherits => "is a"
  | .composes => "has a"
  | .requires => "must have a"
  | .primitiveType => "is a"

/-- Names a relation in enumerations of a graph or a schema. -/
def Relation.code : Relation → String
  | .inherits => "INHERITS"
  | .composes => "COMPOSES"
  | .requires => "REQUIRES"
  | .primitiveType => "PRIMITIVE_TYPE"

/-- A statement of one term about a target, with both names as written. -/
structure Relationship where
  relation : Relation
  source : String
  target : String
  line : Option Int
  deriving DecidableEq

def Relationship.sourceKey (r : Relationship) : Key :=
  Name.key r.source

def Relationship.targetKey (r : Relationship) : Key :=
  Name.key r.target

def Relationship.sentence (r : Relationship) : String :=
  r.source ++ " " ++ r.relation.verb ++ " " ++ r.target

/-- A business concept with its definition and its statements. -/
structure Term where
  name : String
  definition : String
  declaredType : Option String
  declaredIdentifier : Option String
  relationships : List Relationship
  line : Option Int
  deriving DecidableEq

def Term.key (t : Term) : Key :=
  Name.key t.name

/-- The primitive types: their keys with the spelling that is printed. -/
structure Primitives where
  entries : List (Key × String)

/-- Of two spellings of one key the later is kept. -/
def Primitives.ofNames (names : List String) : Primitives :=
  ⟨names.reverse.map fun name => (Name.key name, name)⟩

def Primitives.spelling? (ps : Primitives) (key : Key) : Option String :=
  ps.entries.lookup key

def Primitives.contains (ps : Primitives) (key : Key) : Bool :=
  (ps.spelling? key).isSome

/-- The primitive types that every dictionary may use. -/
def builtInPrimitives : List String :=
  ["String", "Text", "Integer", "Decimal", "Float", "Boolean", "Date", "Timestamp"]

end Glossary
