import Glossary.Resolve.View

/-!
Resolution with a memory. A resolution is a program of look-ups and stores on a memory that it may
share with others; a store keeps what is already there and answers with it.
-/

namespace Glossary

/-- The schemas that are known so far. -/
structure Memory where
  tables : List (Key × TableSchema)
  views : List (Key × ViewSchema)

namespace Memory

def empty : Memory := ⟨[], []⟩

def table? (memory : Memory) (key : Key) : Option TableSchema :=
  memory.tables.lookup key

def view? (memory : Memory) (key : Key) : Option ViewSchema :=
  memory.views.lookup key

/-- Keeps the first table stored under a key, and answers with it. -/
def storeTable (memory : Memory) (key : Key) (table : TableSchema) :
    TableSchema × Memory :=
  match memory.table? key with
  | some first => (first, memory)
  | none => (table, { memory with tables := (key, table) :: memory.tables })

/-- Keeps the first view stored under a key, and answers with it. -/
def storeView (memory : Memory) (key : Key) (view : ViewSchema) : ViewSchema × Memory :=
  match memory.view? key with
  | some first => (first, memory)
  | none => (view, { memory with views := (key, view) :: memory.views })

end Memory

/-- A resolution step by step: every step but the last asks the memory one thing. -/
inductive Resolution (α : Type) where
  | done (value : α)
  | failed (error : ResolutionError)
  | findTable (key : Key) (next : Option TableSchema → Resolution α)
  | storeTable (key : Key) (table : TableSchema) (next : TableSchema → Resolution α)
  | findView (key : Key) (next : Option ViewSchema → Resolution α)
  | storeView (key : Key) (view : ViewSchema) (next : ViewSchema → Resolution α)

namespace Resolution

def bind {α β : Type} (p : Resolution α) (f : α → Resolution β) : Resolution β :=
  match p with
  | done value => f value
  | failed error => failed error
  | findTable key next => findTable key fun found => (next found).bind f
  | storeTable key table next => storeTable key table fun kept => (next kept).bind f
  | findView key next => findView key fun found => (next found).bind f
  | storeView key view next => storeView key view fun kept => (next kept).bind f

instance : Monad Resolution where
  pure := done
  bind := bind

def ofExcept {α : Type} : Except ResolutionError α → Resolution α
  | .ok value => done value
  | .error error => failed error

instance : MonadLift (Except ResolutionError) Resolution where
  monadLift := ofExcept

/-- One step on the given memory. -/
def step {α : Type} (p : Resolution α) (memory : Memory) : Resolution α × Memory :=
  match p with
  | done value => (done value, memory)
  | failed error => (failed error, memory)
  | findTable key next => (next (memory.table? key), memory)
  | storeTable key table next =>
      (next (memory.storeTable key table).1, (memory.storeTable key table).2)
  | findView key next => (next (memory.view? key), memory)
  | storeView key view next =>
      (next (memory.storeView key view).1, (memory.storeView key view).2)

/-- All steps in a row on a memory of its own. -/
def run {α : Type} (p : Resolution α) (memory : Memory) : Except ResolutionError α × Memory :=
  match p with
  | done value => (.ok value, memory)
  | failed error => (.error error, memory)
  | findTable key next => (next (memory.table? key)).run memory
  | storeTable key table next =>
      (next (memory.storeTable key table).1).run (memory.storeTable key table).2
  | findView key next => (next (memory.view? key)).run memory
  | storeView key view next =>
      (next (memory.storeView key view).1).run (memory.storeView key view).2

/-- The table of a declared term, from memory if it is known. -/
def table (g : Graph) (o : ResolutionOptions) (key : Key) : Resolution TableSchema :=
  .findTable key fun
    | some known => .done known
    | none => (ofExcept (g.table o key)).bind fun table => .storeTable key table .done

/-- The view of a declared term, from memory if it is known; all schemas that it is made from are
remembered too. -/
def viewWithin (g : Graph) (o : ResolutionOptions) : Nat → Key → Resolution ViewSchema
  | 0, key => .failed (.unfinished (g.label key))
  | steps + 1, key =>
      .findView key fun
        | some known => .done known
        | none =>
            (g.viewFrom o ⟨table g o, viewWithin g o steps⟩ key).bind fun view =>
              .storeView key view .done

def view (g : Graph) (o : ResolutionOptions) (key : Key) : Resolution ViewSchema :=
  viewWithin g o g.stepBound key

/-- The schema of a declared term in a layer. -/
def schema (g : Graph) (o : ResolutionOptions) (layer : Layer) (key : Key) :
    Resolution Schema :=
  match layer with
  | .physical => (table g o key).bind fun found => .done (.table found)
  | .logical => (view g o key).bind fun found => .done (.view found)

end Resolution

end Glossary
