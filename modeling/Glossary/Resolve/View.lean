import Glossary.Resolve.Table

/-!
The view of a term: its table, joined with the things it has and must have and with its parents. A
joined thing brings its own table, the tables of its ancestors, and what these must have.

Schemas of other terms are asked for through `Sources`, so that the same construction serves with
and without a memory of what has been resolved before.
-/

namespace Glossary

/-- Where the construction of a view gets the schemas of other terms from. -/
structure Sources (m : Type → Type) where
  table : Key → m TableSchema
  view : Key → m ViewSchema

/-- A view under construction. -/
structure ViewDraft extends Draft ViewColumn where
  joins : List Join
  ancestors : List ViewSchema

/-- The alias of the next join. -/
def ViewDraft.nextAlias (v : ViewDraft) : String :=
  "t" ++ toString (v.joins.length + 1)

def ViewDraft.addJoin (v : ViewDraft) (j : Join) : ViewDraft :=
  { v with joins := v.joins ++ [j] }

def ViewDraft.addColumns (o : Occasion) (v : ViewDraft) (columns : List ViewColumn) :
    Except ResolutionError ViewDraft := do
  let draft ← v.toDraft.addAll ViewColumn.toColumn o columns
  return { v with toDraft := draft }

/-- A column of a table as a view shows it. Behind an optional join it may be missing. -/
def Column.shownBy (c : Column) (aliasName owner : String) (optional : Bool) : ViewColumn :=
  { c with required := c.required && !optional, aliasName := aliasName, owner := owner }

/-- A column of an ancestor's view as the view of its child shows it. -/
def ViewColumn.shownBy (c : ViewColumn) (aliasName owner : String) : ViewColumn :=
  { c with aliasName := aliasName, owner := if c.owner = "" then owner else c.owner }

/-- A statement to follow from a table that stands in a view. -/
structure Hop where
  relation : Relation
  parentAlias : String
  parent : Key
  fkColumn : String
  target : Key
  isOptional : Bool

namespace Graph

/-- The hop that a statement of `parent` calls for. -/
def referenceHop (g : Graph) (o : ResolutionOptions) (aliasName : String) (parent : Key)
    (isOptional : Bool) (l : Link) : Hop where
  relation := l.relation
  parentAlias := aliasName
  parent := parent
  fkColumn := (g.referenceColumn o l).name
  target := l.target
  isOptional := isOptional

/-- The hops to the things that a term has and must have. -/
def firstHops (g : Graph) (o : ResolutionOptions) (key : Key) : List Hop :=
  ((g.references key).filter fun l => g.isEntity l.target).map fun l =>
    g.referenceHop o baseAlias key (l.relation == .composes) l

/-- The hops to the things that a joined term must have. -/
def furtherHops (g : Graph) (o : ResolutionOptions) (isOptional : Bool)
    (standing : Key × String) : List Hop :=
  ((g.requirements standing.1).filter fun l => g.isEntity l.target).map fun l =>
    g.referenceHop o standing.2 standing.1 isOptional l

/-- The hop from a joined term to one of its ancestors. -/
def ancestorHop (g : Graph) (o : ResolutionOptions) (hop : Hop) (aliasName : String)
    (ancestor : Key) : Hop where
  relation := .inherits
  parentAlias := aliasName
  parent := hop.target
  fkColumn := (g.identifierColumn o ancestor).name
  target := ancestor
  isOptional := hop.isOptional

section Construction

variable {m : Type → Type} [Monad m] [MonadLiftT (Except ResolutionError) m]

/-- Joins the table that a hop leads to and shows its columns. -/
def joinTable (g : Graph) (sources : Sources m) (o : Occasion) (v : ViewDraft) (hop : Hop) :
    m ViewDraft := do
  let table ← sources.table hop.target
  let aliasName := v.nextAlias
  let joined := v.addJoin {
    aliasName := aliasName
    relation := hop.relation
    source := .table
    table := table.table
    target := hop.target
    targetLabel := table.label
    parentAlias := hop.parentAlias
    parentTerm := hop.parent
    parentLabel := g.label hop.parent
    fkColumn := hop.fkColumn
    keyColumn := (table.identifier?.map Column.name).getD ""
    kind := if hop.isOptional then .left else .inner }
  liftM (joined.addColumns o
    (table.columns.map fun c => c.shownBy aliasName table.label hop.isOptional))

/-- Joins the tables that hops lead to, and tells which term stands at which alias. -/
def joinTables (g : Graph) (sources : Sources m) (o : Occasion) (v : ViewDraft) :
    List Hop → m (ViewDraft × List (Key × String))
  | [] => pure (v, [])
  | hop :: rest => do
      let next ← joinTable g sources o v hop
      let (last, standing) ← joinTables g sources o next rest
      return (last, (hop.target, v.nextAlias) :: standing)

/-- Follows a hop: joins the target, each of its ancestors straight from it, and then what all of
these must have. `path` holds the terms that were reached by hops before; none of them may come
again. -/
def follow (g : Graph) (options : ResolutionOptions) (sources : Sources m) (o : Occasion) :
    Nat → List Key → ViewDraft → Hop → m ViewDraft
  | 0, _, _, _ => liftM (m := Except ResolutionError) (.error (.unfinished o.label))
  | steps + 1, path, v, hop =>
      if hop.target ∈ path then
        liftM (m := Except ResolutionError)
          (.error (.cyclicComposition o.label (g.labels (cycleAt path hop.target))))
      else do
        let targetAlias := v.nextAlias
        let (joined, standing) ← joinTables g sources o v
          (hop :: (g.ancestors hop.target).map (g.ancestorHop options hop targetAlias))
        (standing.flatMap (g.furtherHops options hop.isOptional)).foldlM
          (follow g options sources o steps (path ++ [hop.target])) joined

/-- Joins a parent: its view when that joins anything itself, and its bare table otherwise. -/
def joinParent (g : Graph) (options : ResolutionOptions) (sources : Sources m) (o : Occasion)
    (key : Key) (v : ViewDraft) (parent : Key) : m ViewDraft := do
  let ancestor : ViewSchema ← sources.view parent
  let aliasName := v.nextAlias
  let isBare := ancestor.joins.isEmpty
  let joined := { v with
    ancestors := if isBare then v.ancestors else v.ancestors ++ [ancestor] }.addJoin {
      aliasName := aliasName
      relation := .inherits
      source := if isBare then .table else .view
      table := if isBare then ancestor.baseTable else ancestor.view
      target := parent
      targetLabel := ancestor.label
      parentAlias := baseAlias
      parentTerm := key
      parentLabel := o.label
      fkColumn := (g.identifierColumn options parent).name
      keyColumn := (ancestor.identifier?.map fun c : ViewColumn => c.name).getD ""
      kind := .inner }
  liftM (joined.addColumns o
    (ancestor.columns.map fun c : ViewColumn => c.shownBy aliasName ancestor.label))

/-- The view of a declared term, with the schemas of other terms taken from the sources. -/
def viewFrom (g : Graph) (options : ResolutionOptions) (sources : Sources m) (key : Key) :
    m ViewSchema := do
  let table ← sources.table key
  let o : Occasion := ⟨.logical, table.label, options.strict⟩
  let own ← liftM (ViewDraft.addColumns o ⟨⟨[], table.issues⟩, [], []⟩
    (table.columns.map fun c => c.shownBy baseAlias table.label false))
  let exposed ← (g.firstHops options key).foldlM
    (follow g options sources o g.stepBound [key]) own
  let v ← (g.parents key).foldlM (joinParent g options sources o key) exposed
  return {
    term := key
    label := table.label
    view := Name.view table.label
    baseTable := table.table
    baseAlias := baseAlias
    columns := v.columns
    joins := v.joins
    ancestors := v.ancestors
    issues := v.issues }

end Construction

/-- The view of a declared term, where at most `steps` views of ancestors stand one inside the
other. -/
def viewWithin (g : Graph) (o : ResolutionOptions) : Nat → Key →
    Except ResolutionError ViewSchema
  | 0, key => .error (.unfinished (g.label key))
  | steps + 1, key => g.viewFrom o ⟨g.table o, g.viewWithin o steps⟩ key

/-- The view of a declared term. -/
def view (g : Graph) (o : ResolutionOptions) (key : Key) :
    Except ResolutionError ViewSchema :=
  g.viewWithin o g.stepBound key

end Graph

/-- The schema of a declared term in a layer. -/
def Graph.schema (g : Graph) (o : ResolutionOptions) (layer : Layer) (key : Key) :
    Except ResolutionError Schema :=
  match layer with
  | .physical => (g.table o key).map .table
  | .logical => (g.view o key).map .view

end Glossary
