import Glossary.Diagnostic
import Glossary.Schema.Basic

/-!
Schemas under construction. Columns are contributed one after the other, and the first column of a
name keeps it.
-/

namespace Glossary

open Text

/-- Why a term has no schema. -/
inductive ResolutionError where
  | cyclicInheritance (term : String) (path : List String)
  | cyclicComposition (term : String) (path : List String)
  | ambiguousIdentifier (term column kept dropped : String)
  | unfinished (term : String)
  deriving DecidableEq

def ResolutionError.diagnostic : ResolutionError → Diagnostic
  | cyclicInheritance term path => .cyclicInheritance term path
  | cyclicComposition term path => .cyclicComposition term path
  | ambiguousIdentifier term column kept dropped =>
      .ambiguousIdentifier term column [kept, dropped]
  | unfinished term => .resolution ("resolution of '" ++ term ++ "' does not end") term []

/-- What the columns are collected for. -/
structure Occasion where
  layer : Layer
  label : String
  strict : Bool

/-- Columns and anomalies collected so far. -/
structure Draft (α : Type) where
  columns : List α
  issues : List Issue

def Draft.empty {α : Type} : Draft α := ⟨[], []⟩

/-- Two terms that both bring an identifier under one name cannot be told apart by it. -/
def isAmbiguous (kept dropped : Column) : Bool :=
  kept.role != .value && dropped.role != .value

/-- The anomaly of a column that gives way to one of another term. -/
def Occasion.conflict (o : Occasion) (kept dropped : Column) : Issue where
  stage := o.layer
  code :=
    if isAmbiguous kept dropped then IssueCode.ambiguousIdentifier.text
    else IssueCode.duplicateColumn.text
  location := o.label ++ "." ++ kept.name
  message :=
    o.label ++ ": column '" ++ kept.name ++ "' is contributed by both '" ++ kept.label ++
      "' and '" ++ dropped.label ++ "'; keeping '" ++ kept.label ++ "'"
  details := [("kept", .str kept.label), ("dropped", .str dropped.label)]

/-- Contributes a column. A column whose name is taken is dropped; that is an anomaly when it
carries another term than the one kept, and an error when the occasion is strict and both
identify. -/
def Draft.add {α : Type} (column : α → Column) (o : Occasion) (d : Draft α) (a : α) :
    Except ResolutionError (Draft α) :=
  match d.columns.find? fun kept => (column kept).name == (column a).name with
  | none => .ok { d with columns := d.columns ++ [a] }
  | some first =>
      let kept := column first
      let dropped := column a
      if kept.term = dropped.term then .ok d
      else if isAmbiguous kept dropped && o.strict then
        .error (.ambiguousIdentifier o.label kept.name kept.label dropped.label)
      else .ok { d with issues := d.issues ++ [o.conflict kept dropped] }

/-- Contributes columns in order. -/
def Draft.addAll {α : Type} (column : α → Column) (o : Occasion) (d : Draft α) (as : List α) :
    Except ResolutionError (Draft α) :=
  as.foldlM (Draft.add column o) d

end Glossary
