import Glossary.Resolve.Memory

/-!
Requests by name, one by one and for many names.
-/

namespace Glossary

/-- A graph with the way its terms are resolved. -/
structure Resolver where
  graph : Graph
  options : ResolutionOptions

/-- Why a request for a name is not answered. -/
inductive RequestError where
  | lookup (error : LookupError)
  | resolution (error : ResolutionError)
  deriving DecidableEq

def RequestError.diagnostic : RequestError → Diagnostic
  | lookup error => error.diagnostic
  | resolution error => error.diagnostic

namespace Resolver

/-- The schema of the term with this name, resolved for this request alone. -/
def answer (r : Resolver) (layer : Layer) (name : String) : Except RequestError Schema := do
  let key ← (r.graph.keyOf name).mapError RequestError.lookup
  (r.graph.schema r.options layer key).mapError RequestError.resolution

/-- Resolves the term with this name on a memory, which keeps what was resolved on the way. -/
def ask {α : Type} (r : Resolver) (resolution : Key → Resolution α) (name : String)
    (memory : Memory) : Except RequestError α × Memory :=
  match r.graph.keyOf name with
  | .error error => (.error (.lookup error), memory)
  | .ok key =>
      let outcome := (resolution key).run memory
      (outcome.1.mapError RequestError.resolution, outcome.2)

def request (r : Resolver) (layer : Layer) : String → Memory →
    Except RequestError Schema × Memory :=
  r.ask (Resolution.schema r.graph r.options layer)

def requestTable (r : Resolver) : String → Memory →
    Except RequestError TableSchema × Memory :=
  r.ask (Resolution.table r.graph r.options)

def requestView (r : Resolver) : String → Memory →
    Except RequestError ViewSchema × Memory :=
  r.ask (Resolution.view r.graph r.options)

end Resolver

/-- The answers for many names, and the names that got none, both in the order of the names. -/
structure Batch (ε α : Type) where
  results : List (String × α)
  failures : List (String × ε)

namespace Batch

variable {ε α σ : Type}

def empty : Batch ε α := ⟨[], []⟩

/-- A name that has an answer already keeps its place. -/
def addResult (b : Batch ε α) (name : String) (value : α) : Batch ε α :=
  if (b.results.lookup name).isSome then
    { b with results := b.results.map fun r => if r.1 == name then (name, value) else r }
  else { b with results := b.results ++ [(name, value)] }

def addOutcome (b : Batch ε α) (name : String) : Except ε α → Batch ε α
  | .ok value => b.addResult name value
  | .error error => { b with failures := b.failures ++ [(name, error)] }

/-- Works on the names in order; a failure does not stop the work on the names after it. -/
def collect (work : String → σ → Except ε α × σ) (b : Batch ε α) (s : σ) :
    List String → Batch ε α × σ
  | [] => (b, s)
  | name :: rest =>
      let outcome := work name s
      collect work (b.addOutcome name outcome.1) outcome.2 rest

def ok (b : Batch ε α) : Bool :=
  b.failures.isEmpty

end Batch

/-- A number of workers that cannot work. -/
inductive WorkersError where
  | notPositive (workers : Int)

/-- Work is done for any positive number of workers, and when none is asked for. -/
def requireWorkers : Option Int → Except WorkersError Unit
  | none => .ok ()
  | some n => if 0 < n then .ok () else .error (.notPositive n)

/-- The schemas of many terms, of all terms when none are named. -/
def Resolver.requestAll (r : Resolver) (layer : Layer) (names : Option (List String))
    (workers : Option Int) (memory : Memory) :
    Except WorkersError (Batch RequestError Schema) × Memory :=
  match requireWorkers workers with
  | .error error => (.error error, memory)
  | .ok () =>
      let asked := names.getD (r.graph.terms.map Term.name)
      let outcome := Batch.collect (r.request layer) Batch.empty memory asked
      (.ok outcome.1, outcome.2)

end Glossary
