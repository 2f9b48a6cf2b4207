import Glossary.Resolve.Sharing

/-!
A pool of workers that share one memory. Units of work are begun in order and go on step by step,
in turns that nothing prescribes; their outcomes are handed in as they come about and are put in
order in the end.
-/

namespace Glossary

/-- Nothing is left to do. -/
def Resolution.isOver {α : Type} : Resolution α → Bool
  | done _ => true
  | failed _ => true
  | _ => false

/-- Goes on with what has become of a resolution, be it an error. -/
def Resolution.attempt {α : Type} (p : Resolution α) : Resolution (Except ResolutionError α) :=
  match p with
  | done value => done (.ok value)
  | failed error => done (.error error)
  | findTable key next => findTable key fun found => (next found).attempt
  | storeTable key table next => storeTable key table fun kept => (next kept).attempt
  | findView key next => findView key fun found => (next found).attempt
  | storeView key view next => storeView key view fun kept => (next kept).attempt

/-- The steps of `ask`. -/
def Resolver.asking {α : Type} (r : Resolver) (resolution : Key → Resolution α) (name : String) :
    Resolution (Except RequestError α) :=
  match r.graph.keyOf name with
  | .error error => .done (.error (.lookup error))
  | .ok key =>
      (resolution key).attempt.bind fun outcome => .done (outcome.mapError RequestError.resolution)

/-- Numbered units of work: those that wait, those that workers are at, and the outcomes of the
others in the order in which they were handed in. -/
structure Pool (α : Type) where
  memory : Memory
  waiting : List (Nat × Resolution α)
  running : List (Nat × Resolution α)
  finished : List (Nat × α)

namespace Pool

variable {α ε : Type}

def start (memory : Memory) (work : String → Resolution α) (names : List String) : Pool α where
  memory := memory
  waiting := names.zipIdx.map fun named => (named.2, work named.1)
  running := []
  finished := []

/-- A free worker begins the next unit, a worker makes a step of its unit, or it hands in the
outcome. -/
inductive Step (workers : Nat) : Pool α → Pool α → Prop
  | begin {memory : Memory} {unit : Nat × Resolution α}
      {waiting running : List (Nat × Resolution α)} {finished : List (Nat × α)} :
      running.length < workers →
      Step workers ⟨memory, unit :: waiting, running, finished⟩
        ⟨memory, waiting, running ++ [unit], finished⟩
  | advance {memory : Memory} {n : Nat} {p : Resolution α}
      {waiting before after : List (Nat × Resolution α)} {finished : List (Nat × α)} :
      p.isOver = false →
      Step workers ⟨memory, waiting, before ++ (n, p) :: after, finished⟩
        ⟨(p.step memory).2, waiting, before ++ (n, (p.step memory).1) :: after, finished⟩
  | finish {memory : Memory} {n : Nat} {value : α}
      {waiting before after : List (Nat × Resolution α)} {finished : List (Nat × α)} :
      Step workers ⟨memory, waiting, before ++ (n, .done value) :: after, finished⟩
        ⟨memory, waiting, before ++ after, finished ++ [(n, value)]⟩

/-- The batch of the outcomes that have been handed in, in the order of the names. -/
def batch (p : Pool (Except ε α)) (names : List String) : Batch ε α :=
  Batch.gather (names.zipIdx.filterMap fun named =>
    (p.finished.lookup named.2).map fun outcome => (named.1, outcome))

end Pool

end Glossary
