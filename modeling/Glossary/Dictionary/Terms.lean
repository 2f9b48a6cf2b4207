import Glossary.Dictionary.Block
import Glossary.Diagnostic

/-!
The terms that a dictionary declares. Every block is read by itself; whether the targets of its
statements exist is not asked here.
-/

namespace Glossary.Dictionary

/-- What is wrong with a dictionary text. -/
inductive ParseFault where
  | strayStatement (body : String)
  | primitiveName (name : String)
  | missingDefinition
  | malformedStatement (body : String)
  | otherSubject (subject : String)
  | unknownVerb
  | secondIdentifier
  | selfIdentifier
  | secondType (first second : String)
  | repeated (previous : Relationship)
  | conflicting (previous next : Relationship)
  | typedWithStatements (type : String)
  | duplicateTerm (first : Term)

def ParseFault.reason : ParseFault → String
  | strayStatement body =>
      "relationship statement '" ++ body ++ "' before the first term heading"
  | primitiveName name => "'" ++ name ++ "' is a primitive type and cannot be redefined"
  | missingDefinition => "missing definition"
  | malformedStatement body => "malformed relationship statement '" ++ body ++ "'"
  | otherSubject subject => "statement subject '" ++ subject ++ "' does not match the term"
  | unknownVerb => "unknown verb"
  | secondIdentifier => "more than one 'is identified by' statement"
  | selfIdentifier => "a term cannot be identified by itself"
  | secondType first second =>
      "more than one primitive type (" ++ first ++ ", " ++ second ++ ")"
  | repeated previous => "repeated statement '" ++ previous.sentence ++ "'"
  | conflicting previous next =>
      "conflicting statements '" ++ previous.sentence ++ "' and '" ++ next.sentence ++ "'"
  | typedWithStatements type =>
      "a term typed as " ++ type ++ " cannot declare other relationships"
  | duplicateTerm first =>
      "duplicate term (first declared as '" ++ first.name ++ "' on line " ++
        (first.line.map toString).getD "None" ++ ")"

/-- A fault and the place where it was found. -/
structure ParseError where
  fault : ParseFault
  block : Option String
  line : Nat

/-- What a user is told; there is no wording for an unknown verb. -/
def ParseError.diagnostic? (e : ParseError) : Option Diagnostic :=
  match e.fault with
  | .unknownVerb => none
  | .duplicateTerm first =>
      some (.duplicate (ParseFault.duplicateTerm first).reason e.block (some e.line))
  | fault => some (.malformed fault.reason e.block (some e.line))

/-- What the statements of a block have declared so far. -/
structure Declared where
  type : Option String
  identifier : Option String
  relationships : List Relationship

def Declared.nothing : Declared := ⟨none, none, []⟩

/-- The statement about the target with this key. -/
def Declared.about? (d : Declared) (target : Key) : Option Relationship :=
  d.relationships.find? fun r => r.targetKey == target

/-- Adds a statement unless there is one about its target already. -/
def Declared.relate (d : Declared) (r : Relationship) : Except ParseFault Declared :=
  match d.about? r.targetKey with
  | some previous =>
      .error (if previous.relation = r.relation then .repeated previous
        else .conflicting previous r)
  | none => .ok { d with relationships := d.relationships ++ [r] }

/-- Takes in a statement of the block `name` that stands on the given line. -/
def Declared.addStatement (primitives : Primitives) (name : String) (d : Declared) (line : Nat)
    (body : String) : Except ParseFault Declared :=
  match Statement.ofText? body.toList with
  | none => .error (.malformedStatement body)
  | some statement =>
      let target := Name.display statement.object
      if Name.key statement.subject ≠ Name.key name then .error (.otherSubject statement.subject)
      else
        match statement.verb with
        | none => .error .unknownVerb
        | some .identifiedBy =>
            if d.identifier.isSome then .error .secondIdentifier
            else if Name.key target = Name.key name then .error .selfIdentifier
            else .ok { d with identifier := some target }
        | some (.relates relation) =>
            match relation, primitives.spelling? (Name.key target) with
            | .inherits, some type =>
                match d.type with
                | some first => .error (.secondType first type)
                | none =>
                    Declared.relate { d with type := some type }
                      ⟨.primitiveType, name, type, some line⟩
            | relation, _ => d.relate ⟨relation, name, target, some line⟩

/-- Takes in the statements of a block in order, and tells the line of the first that fails. -/
def Declared.addStatements (primitives : Primitives) (name : String) (d : Declared) :
    List (Nat × String) → Except ParseError Declared
  | [] => .ok d
  | (line, body) :: rest =>
      match d.addStatement primitives name line body with
      | .error fault => .error ⟨fault, some name, line⟩
      | .ok next => next.addStatements primitives name rest

/-- The term that a block declares. -/
def Block.term (primitives : Primitives) (b : Block) : Except ParseError Term :=
  if primitives.contains (Name.key b.name) then
    .error ⟨.primitiveName b.name, some b.name, b.line⟩
  else if b.definition.isEmpty then .error ⟨.missingDefinition, some b.name, b.line⟩
  else do
    let d ← Declared.nothing.addStatements primitives b.name b.statements
    match d.type with
    | some type =>
        if 1 < d.relationships.length || d.identifier.isSome then
          throw ⟨.typedWithStatements type, some b.name, b.line⟩
    | none => pure ()
    return {
      name := b.name
      definition := " ".intercalate b.definition
      declaredType := d.type
      declaredIdentifier := d.identifier
      relationships := d.relationships
      line := some b.line }

/-- Takes in the term of a block, which must have a key of its own. -/
def addTerm (primitives : Primitives) (terms : List Term) (b : Block) :
    Except ParseError (List Term) := do
  let t ← b.term primitives
  match terms.find? fun first => first.key == t.key with
  | some first => throw ⟨.duplicateTerm first, some b.name, b.line⟩
  | none => return terms ++ [t]

/-- The terms that a dictionary text declares, in order. -/
def terms (primitives : Primitives) (text : String) : Except ParseError (List Term) :=
  match blocks text.toList with
  | .error stray => .error ⟨.strayStatement stray.body, none, stray.line⟩
  | .ok bs => bs.foldlM (addTerm primitives) []

end Glossary.Dictionary
