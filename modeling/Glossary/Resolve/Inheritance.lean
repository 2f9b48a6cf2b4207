import Glossary.Graph.Basic
import Glossary.Resolve.Draft

/-!
Inheritance: the search for cycles of `is a` statements, and the ancestors of a term.
-/

namespace Glossary.Graph

/-- A walk never needs more steps than this, as there is one more than there are terms. -/
def stepBound (g : Graph) : Nat :=
  g.size + 1

/-- The part of a path from the first occurrence of a key on, closed with that key. -/
def cycleAt (path : List Key) (key : Key) : List Key :=
  (path.dropWhile fun k => k != key) ++ [key]

def labels (g : Graph) (keys : List Key) : List String :=
  keys.map g.label

/-- Walks the `is a` statements depth first from `key`, which is reached along `path`. The keys in
`done` are known to reach no cycle, and the answer extends them. -/
def walkParents (g : Graph) (root : Key) :
    Nat → List Key → List Key → Key → Except ResolutionError (List Key)
  | 0, _, _, _ => .error (.unfinished (g.label root))
  | steps + 1, path, done, key =>
      if key ∈ path then
        .error (.cyclicInheritance (g.label root) (g.labels (cycleAt path key)))
      else if key ∈ done then .ok done
      else do
        let after ← (g.parents key).foldlM (walkParents g root steps (path ++ [key])) done
        return after ++ [key]

/-- Fails with the first cycle of `is a` statements that the term reaches. -/
def requireAcyclic (g : Graph) (key : Key) : Except ResolutionError Unit := do
  let _ ← g.walkParents key g.stepBound [] [] key
  return ()

/-- The keys of a level that have not been seen, each once, in order. -/
def unseen (seen : List Key) : List Key → List Key
  | [] => []
  | key :: rest =>
      if key ∈ seen then unseen seen rest else key :: unseen (key :: seen) rest

/-- Walks the `is a` statements level by level; `level` holds the keys one step further. -/
def ancestorLevels (g : Graph) : Nat → List Key → List Key → List (List Key)
  | 0, _, _ => []
  | steps + 1, seen, level =>
      match unseen seen level with
      | [] => []
      | key :: rest =>
          (key :: rest) ::
            g.ancestorLevels steps (seen ++ key :: rest) ((key :: rest).flatMap g.parents)

/-- All terms that are reached by `is a` statements, nearest first, each once. -/
def ancestors (g : Graph) (key : Key) : List Key :=
  (g.ancestorLevels g.stepBound [key] (g.parents key)).flatten

end Glossary.Graph
