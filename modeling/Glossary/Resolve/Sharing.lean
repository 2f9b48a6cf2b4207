import Glossary.Resolve.Request

/-!
Calls that share one memory. A call looks up or stores one schema at a time, and between two of its
steps other calls may make theirs.
-/

namespace Glossary

/-- A call for the schema of a term, and what is left of it. -/
structure Call where
  layer : Layer
  name : String
  rest : Except LookupError (Resolution Schema)

def Resolver.call (r : Resolver) (layer : Layer) (name : String) : Call where
  layer := layer
  name := name
  rest := (r.graph.keyOf name).map (Resolution.schema r.graph r.options layer)

namespace Call

/-- What a call comes to when nothing is left of it. -/
def answer? (c : Call) : Option (Except RequestError Schema) :=
  match c.rest with
  | .error error => some (.error (.lookup error))
  | .ok (.done schema) => some (.ok schema)
  | .ok (.failed error) => some (.error (.resolution error))
  | .ok _ => none

def step (c : Call) (memory : Memory) : Call × Memory :=
  match c.rest with
  | .error _ => (c, memory)
  | .ok rest => ({ c with rest := .ok (rest.step memory).1 }, (rest.step memory).2)

end Call

/-- What can happen to a memory that is shared: a call begins, the call of that number makes its
next step, or a request is answered with no step of another call in between. -/
inductive Event where
  | begin (layer : Layer) (name : String)
  | advance (n : Nat)
  | request (layer : Layer) (name : String)
  | requestTable (name : String)
  | requestView (name : String)
  | requestAll (layer : Layer) (names : Option (List String)) (workers : Option Int)

/-- A memory with the calls that share it, in the order in which they began. -/
structure Sharing where
  memory : Memory
  calls : List Call

def Sharing.start : Sharing := ⟨Memory.empty, []⟩

/-- The `n`-th call makes a step. -/
def Sharing.advance (s : Sharing) (n : Nat) : Sharing :=
  match s.calls[n]? with
  | none => s
  | some c => ⟨(c.step s.memory).2, s.calls.set n (c.step s.memory).1⟩

def Sharing.after (r : Resolver) (s : Sharing) : Event → Sharing
  | .begin layer name => { s with calls := s.calls ++ [r.call layer name] }
  | .advance n => s.advance n
  | .request layer name => { s with memory := (r.request layer name s.memory).2 }
  | .requestTable name => { s with memory := (r.requestTable name s.memory).2 }
  | .requestView name => { s with memory := (r.requestView name s.memory).2 }
  | .requestAll layer names workers =>
      { s with memory := (r.requestAll layer names workers s.memory).2 }

/-- What has become of an empty memory after the first `n` events. -/
def Resolver.history (r : Resolver) (events : Nat → Event) : Nat → Sharing
  | 0 => Sharing.start
  | n + 1 => (r.history events n).after r (events n)

/-- The batch of outcomes that have come about one by one. -/
def Batch.gather {ε α : Type} (outcomes : List (String × Except ε α)) : Batch ε α :=
  outcomes.foldl (fun b outcome => b.addOutcome outcome.1 outcome.2) Batch.empty

end Glossary
