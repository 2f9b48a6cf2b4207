/-!
What a user is told when a dictionary, a lookup, a resolution or a statement cannot be answered.
-/

namespace Glossary

/-- A problem with the facts that belong to it. -/
inductive Diagnostic where
  | general (text : String) (term : Option String)
  | graph (text : String) (term : Option String)
  | generation (text : String) (term : Option String)
  | malformed (reason : String) (block : Option String) (line : Option Int)
  | duplicate (reason : String) (block : Option String) (line : Option Int)
  | undefined (name : String) (source : Option String) (relation : Option String)
  | resolution (text : String) (term : String) (path : List String)
  | cyclicInheritance (term : String) (path : List String)
  | cyclicComposition (term : String) (path : List String)
  | ambiguousIdentifier (term : String) (column : String) (owners : List String)
  deriving DecidableEq

namespace Diagnostic

/-- An absent text and an empty one are both left out of a message. -/
def present? (text : Option String) : Option String :=
  text.filter fun s => s != ""

/-- The reason after the place it refers to. -/
def located (reason : String) (block : Option String) (line : Option Int) : String :=
  let places :=
    ((present? block).map fun b => "term '" ++ b ++ "'").toList ++
      (line.map fun n => "line " ++ toString n).toList
  if places.isEmpty then reason else ", ".intercalate places ++ ": " ++ reason

/-- The text before the path it ends with. -/
def along (text : String) (path : List String) : String :=
  if path.isEmpty then text else text ++ ": " ++ " -> ".intercalate path

def message : Diagnostic → String
  | general text _ => text
  | graph text _ => text
  | generation text _ => text
  | malformed reason block line => located reason block line
  | duplicate reason block line => located reason block line
  | undefined name source relation =>
      match present? source with
      | some s =>
          "term '" ++ s ++ "' " ++ (present? relation).getD "references" ++
            " undefined term '" ++ name ++ "'"
      | none => "undefined term '" ++ name ++ "'"
  | resolution text _ path => along text path
  | cyclicInheritance term path =>
      along ("cyclic inheritance while resolving '" ++ term ++ "'") path
  | cyclicComposition term path =>
      along ("cyclic composition while resolving '" ++ term ++ "'") path
  | ambiguousIdentifier term column owners =>
      "ambiguous identifier '" ++ column ++ "' in '" ++ term ++ "' (declared by " ++
        ", ".intercalate owners ++ ")"

/-- The term that the problem is about. -/
def term? : Diagnostic → Option String
  | general _ term => term
  | graph _ term => term
  | generation _ term => term
  | malformed _ block _ => block
  | duplicate _ block _ => block
  | undefined name source _ => some ((present? source).getD name)
  | resolution _ term _ => some term
  | cyclicInheritance term _ => some term
  | cyclicComposition term _ => some term
  | ambiguousIdentifier term _ _ => some term

end Diagnostic

end Glossary
