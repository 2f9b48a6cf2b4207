import Glossary.Proofs.ViewSimulation
import Glossary.Resolve.Sharing

/-!
A memory cannot be noticed. It only ever holds what terms are resolved to on their own, so whatever
a call finds in it is what the call would have made, and whatever happens between the steps of a
call leaves its answer as it is.
-/

namespace Glossary

open Fallible

/-- What the memory knows of a term is what the term is resolved to on its own. -/
structure Memory.Faithful (g : Graph) (o : ResolutionOptions) (memory : Memory) : Prop where
  table_eq_ok : ∀ key t, memory.table? key = some t → g.table o key = .ok t
  view_eq_ok : ∀ key v, memory.view? key = some v → g.view o key = .ok v

/-- On a faithful memory the resolution comes to this outcome. It looks up what may be missing or
known, and it stores only what its key is resolved to on its own. -/
inductive Resolution.Yields (g : Graph) (o : ResolutionOptions) {α : Type} :
    Resolution α → Except ResolutionError α → Prop
  | done (a : α) : Yields g o (.done a) (.ok a)
  | failed (e : ResolutionError) : Yields g o (.failed e) (.error e)
  | findTable {key : Key} {next : Option TableSchema → Resolution α}
      {outcome : Except ResolutionError α} : Yields g o (next none) outcome →
      (∀ t, g.table o key = .ok t → Yields g o (next (some t)) outcome) →
      Yields g o (.findTable key next) outcome
  | storeTable {key : Key} {t : TableSchema} {next : TableSchema → Resolution α}
      {outcome : Except ResolutionError α} : g.table o key = .ok t → Yields g o (next t) outcome →
      Yields g o (.storeTable key t next) outcome
  | findView {key : Key} {next : Option ViewSchema → Resolution α}
      {outcome : Except ResolutionError α} : Yields g o (next none) outcome →
      (∀ v, g.view o key = .ok v → Yields g o (next (some v)) outcome) →
      Yields g o (.findView key next) outcome
  | storeView {key : Key} {v : ViewSchema} {next : ViewSchema → Resolution α}
      {outcome : Except ResolutionError α} : g.view o key = .ok v → Yields g o (next v) outcome →
      Yields g o (.storeView key v next) outcome

section Yields

variable {g : Graph} {o : ResolutionOptions} {α β : Type} {memory : Memory}

theorem Memory.faithful_empty : Memory.empty.Faithful g o where
  table_eq_ok := by simp [Memory.table?, Memory.empty]
  view_eq_ok := by simp [Memory.view?, Memory.empty]

theorem eq_ok_of_lookup_cons {f : Key → Except ResolutionError α} {entries : List (Key × α)}
    {key : Key} {a : α} (ha : f key = .ok a)
    (hentries : ∀ k b, entries.lookup k = some b → f k = .ok b) :
    ∀ k b, ((key, a) :: entries).lookup k = some b → f k = .ok b := by
  intro k b hfound
  rw [List.lookup_cons] at hfound
  split at hfound
  · rename_i heq
    rw [beq_iff_eq.mp heq, ← Option.some.inj hfound]
    exact ha
  · exact hentries k b hfound

theorem Memory.Faithful.storeTable (h : memory.Faithful g o) {key : Key} {t : TableSchema}
    (ht : g.table o key = .ok t) :
    (memory.storeTable key t).1 = t ∧ (memory.storeTable key t).2.Faithful g o := by
  unfold Memory.storeTable
  cases hfound : memory.table? key with
  | some first =>
      have hfirst := h.table_eq_ok key first hfound
      exact ⟨Except.ok.inj (hfirst.symm.trans ht), h⟩
  | none => exact ⟨rfl, eq_ok_of_lookup_cons ht h.table_eq_ok, h.view_eq_ok⟩

theorem Memory.Faithful.storeView (h : memory.Faithful g o) {key : Key} {v : ViewSchema}
    (hv : g.view o key = .ok v) :
    (memory.storeView key v).1 = v ∧ (memory.storeView key v).2.Faithful g o := by
  unfold Memory.storeView
  cases hfound : memory.view? key with
  | some first =>
      have hfirst := h.view_eq_ok key first hfound
      exact ⟨Except.ok.inj (hfirst.symm.trans hv), h⟩
  | none => exact ⟨rfl, h.table_eq_ok, eq_ok_of_lookup_cons hv h.view_eq_ok⟩

namespace Resolution

theorem Yields.bind {p : Resolution α} {outcome : Except ResolutionError α}
    {f : α → Resolution β} {f' : α → Except ResolutionError β} (h : p.Yields g o outcome)
    (hf : ∀ a, outcome = .ok a → (f a).Yields g o (f' a)) :
    (p.bind f).Yields g o (outcome >>= f') := by
  induction h with
  | done a => exact hf a rfl
  | failed e => exact .failed e
  | findTable _ _ ihNone ihSome =>
      apply Yields.findTable (ihNone hf)
      intro t ht
      exact ihSome t ht hf
  | storeTable ht _ ih => exact .storeTable ht (ih hf)
  | findView _ _ ihNone ihSome =>
      apply Yields.findView (ihNone hf)
      intro v hv
      exact ihSome v hv hf
  | storeView hv _ ih => exact .storeView hv (ih hf)

/-- What is done after a resolution may keep its outcome. -/
theorem Yields.bind_keeps {p : Resolution α} {outcome : Except ResolutionError α}
    {f : α → Resolution α} (h : p.Yields g o outcome)
    (hf : ∀ a, outcome = .ok a → (f a).Yields g o (.ok a)) : (p.bind f).Yields g o outcome := by
  rw [← bind_pure outcome]
  exact h.bind hf

theorem yields_ofExcept (x : Except ResolutionError α) : (ofExcept x).Yields g o x := by
  cases x with
  | ok a => exact .done a
  | error e => exact .failed e

/-- Resolutions on a faithful memory are a way to compute what they yield. -/
def simulation (g : Graph) (o : ResolutionOptions) : Simulation Resolution where
  Does p outcome := p.Yields g o outcome
  does_pure a := .done a
  does_lift x := yields_ofExcept x
  does_bind h hf := h.bind hf

theorem yields_table (g : Graph) (o : ResolutionOptions) (key : Key) :
    (table g o key).Yields g o (g.table o key) := by
  apply Yields.findTable
  · apply (yields_ofExcept (g.table o key)).bind_keeps
    exact fun t ht => Yields.storeTable ht (.done t)
  · intro t ht
    rw [ht]
    exact .done t

theorem yields_viewWithin {steps : Nat} {key : Key}
    (h : (g.viewFrom o ⟨table g o, viewWithin g o steps⟩ key).Yields g o (g.view o key)) :
    (viewWithin g o (steps + 1) key).Yields g o (g.view o key) := by
  apply Yields.findView
  · apply h.bind_keeps
    exact fun v hv => Yields.storeView hv (.done v)
  · intro v hv
    rw [hv]
    exact .done v

theorem yields_viewWithin_of_size_lt {steps : Nat} (hsteps : g.size < steps) (key : Key) :
    (viewWithin g o steps key).Yields g o (g.view o key) := by
  -- the same construction is run twice, once on a memory and once without
  apply Graph.viewWithin_does (simulation g o) (Graph.AgreesOn.refl g) (Graph.OptionsAlike.refl _ o)
  · exact fun k _ => yields_table g o k
  · exact fun steps k h => yields_viewWithin h
  · exact Set.mem_univ key
  · exact Graph.StandBelow.nil
  · exact hsteps

/-- With a memory or without one, resolution comes to the same schema or the same error. -/
theorem yields_view (g : Graph) (o : ResolutionOptions) (key : Key) :
    (view g o key).Yields g o (g.view o key) :=
  yields_viewWithin_of_size_lt (Nat.lt_succ_self g.size) key

theorem yields_schema (g : Graph) (o : ResolutionOptions) (layer : Layer) (key : Key) :
    (schema g o layer key).Yields g o (g.schema o layer key) := by
  cases layer with
  | physical =>
      apply (yields_table g o key).bind
      exact fun t _ => Yields.done (Schema.table t)
  | logical =>
      apply (yields_view g o key).bind
      exact fun v _ => Yields.done (Schema.view v)

/-- One step keeps the memory faithful, and what is left yields the same. -/
theorem Yields.step {p : Resolution α} {outcome : Except ResolutionError α}
    (h : p.Yields g o outcome) (hmemory : memory.Faithful g o) :
    (p.step memory).1.Yields g o outcome ∧ (p.step memory).2.Faithful g o := by
  cases h with
  | done a => exact ⟨.done a, hmemory⟩
  | failed e => exact ⟨.failed e, hmemory⟩
  | @findTable key next _ hnone hsome =>
      refine ⟨?_, hmemory⟩
      simp only [Resolution.step]
      cases hfound : memory.table? key with
      | none => exact hnone
      | some t => exact hsome t (hmemory.table_eq_ok key t hfound)
  | storeTable ht hnext =>
      obtain ⟨hkept, hafter⟩ := hmemory.storeTable ht
      simp only [Resolution.step, hkept]
      exact ⟨hnext, hafter⟩
  | @findView key next _ hnone hsome =>
      refine ⟨?_, hmemory⟩
      simp only [Resolution.step]
      cases hfound : memory.view? key with
      | none => exact hnone
      | some v => exact hsome v (hmemory.view_eq_ok key v hfound)
  | storeView hv hnext =>
      obtain ⟨hkept, hafter⟩ := hmemory.storeView hv
      simp only [Resolution.step, hkept]
      exact ⟨hnext, hafter⟩

theorem Yields.run {p : Resolution α} {outcome : Except ResolutionError α}
    (h : p.Yields g o outcome) (hmemory : memory.Faithful g o) :
    (p.run memory).1 = outcome ∧ (p.run memory).2.Faithful g o := by
  induction p generalizing memory with
  | done a =>
      cases h
      exact ⟨rfl, hmemory⟩
  | failed e =>
      cases h
      exact ⟨rfl, hmemory⟩
  | findTable key next ih =>
      obtain ⟨hnext, hafter⟩ := h.step hmemory
      exact ih _ hnext hafter
  | storeTable key t next ih =>
      obtain ⟨hnext, hafter⟩ := h.step hmemory
      exact ih _ hnext hafter
  | findView key next ih =>
      obtain ⟨hnext, hafter⟩ := h.step hmemory
      exact ih _ hnext hafter
  | storeView key v next ih =>
      obtain ⟨hnext, hafter⟩ := h.step hmemory
      exact ih _ hnext hafter

end Resolution

end Yields

section Requests

variable {r : Resolver} {memory : Memory}

namespace Resolver

theorem ask_eq {α : Type} {resolution : Key → Resolution α}
    {alone : Key → Except ResolutionError α}
    (hyields : ∀ key, (resolution key).Yields r.graph r.options (alone key)) (name : String)
    (hmemory : memory.Faithful r.graph r.options) :
    (r.ask resolution name memory).1 =
        (do
          let key ← (r.graph.keyOf name).mapError RequestError.lookup
          (alone key).mapError RequestError.resolution) ∧
      (r.ask resolution name memory).2.Faithful r.graph r.options := by
  unfold ask
  cases hkey : r.graph.keyOf name with
  | error error => exact ⟨rfl, hmemory⟩
  | ok key =>
      obtain ⟨hanswer, hafter⟩ := (hyields key).run hmemory
      refine ⟨?_, hafter⟩
      dsimp only
      rw [hanswer]
      rfl

theorem eq_ok_of_ask {α : Type} {resolution : Key → Resolution α}
    {alone : Key → Except ResolutionError α}
    (hyields : ∀ key, (resolution key).Yields r.graph r.options (alone key)) {name : String}
    {key : Key} (hkey : r.graph.keyOf name = .ok key) (hmemory : memory.Faithful r.graph r.options)
    {a : α} (h : (r.ask resolution name memory).1 = .ok a) : alone key = .ok a := by
  rw [(ask_eq hyields name hmemory).1, hkey] at h
  exact mapError_eq_ok_iff.mp h

/-- Requests have the same answer when the name stands for the same term and this resolves alike. -/
theorem ask_eq_ask {α : Type} {r r' : Resolver} {memory memory' : Memory}
    {resolution resolution' : Key → Resolution α} {alone alone' : Key → Except ResolutionError α}
    (hyields : ∀ key, (resolution key).Yields r.graph r.options (alone key))
    (hyields' : ∀ key, (resolution' key).Yields r'.graph r'.options (alone' key)) {name : String}
    (hkey : r'.graph.keyOf name = r.graph.keyOf name)
    (halone : ∀ key, r.graph.keyOf name = .ok key → alone key = alone' key)
    (hmemory : memory.Faithful r.graph r.options)
    (hmemory' : memory'.Faithful r'.graph r'.options) :
    (r.ask resolution name memory).1 = (r'.ask resolution' name memory').1 := by
  rw [(ask_eq hyields name hmemory).1, (ask_eq hyields' name hmemory').1, hkey]
  cases hkey : r.graph.keyOf name with
  | error error => rfl
  | ok key =>
      show (alone key).mapError _ = (alone' key).mapError _
      rw [halone key hkey]

theorem faithful_requestTable (name : String) (hmemory : memory.Faithful r.graph r.options) :
    (r.requestTable name memory).2.Faithful r.graph r.options :=
  (ask_eq (fun key => Resolution.yields_table r.graph r.options key) name hmemory).2

theorem faithful_requestView (name : String) (hmemory : memory.Faithful r.graph r.options) :
    (r.requestView name memory).2.Faithful r.graph r.options :=
  (ask_eq (fun key => Resolution.yields_view r.graph r.options key) name hmemory).2

/-- A request is answered as if it were the only one. -/
theorem request_eq (layer : Layer) (name : String) (hmemory : memory.Faithful r.graph r.options) :
    (r.request layer name memory).1 = r.answer layer name ∧
      (r.request layer name memory).2.Faithful r.graph r.options :=
  ask_eq (fun key => Resolution.yields_schema r.graph r.options layer key) name hmemory

end Resolver

theorem Batch.collect_eq {ε α σ : Type} {work : String → σ → Except ε α × σ}
    {alone : String → Except ε α} {invariant : σ → Prop}
    (hwork : ∀ name s, invariant s → (work name s).1 = alone name ∧ invariant (work name s).2)
    (names : List String) (b : Batch ε α) (s : σ) (hs : invariant s) :
    (collect work b s names).1 = names.foldl (fun b name => b.addOutcome name (alone name)) b ∧
      invariant (collect work b s names).2 := by
  induction names generalizing b s with
  | nil => exact ⟨rfl, hs⟩
  | cons name names ih =>
      obtain ⟨houtcome, hafter⟩ := hwork name s hs
      rw [collect, List.foldl_cons, houtcome]
      exact ih _ _ hafter

theorem Batch.gather_map {ε α : Type} (alone : String → Except ε α) (names : List String) :
    gather (names.map fun name => (name, alone name)) =
      names.foldl (fun b name => b.addOutcome name (alone name)) empty := by
  unfold gather
  rw [List.foldl_map]

theorem Resolver.requestAll_eq (layer : Layer) (names : Option (List String)) (workers : Option Int)
    (hmemory : memory.Faithful r.graph r.options) :
    (r.requestAll layer names workers memory).1 =
        (requireWorkers workers).map (fun _ =>
          Batch.gather ((names.getD (r.graph.terms.map Term.name)).map fun name =>
            (name, r.answer layer name))) ∧
      (r.requestAll layer names workers memory).2.Faithful r.graph r.options := by
  unfold requestAll
  cases requireWorkers workers with
  | error error => exact ⟨rfl, hmemory⟩
  | ok u =>
      have hwork : ∀ name s, s.Faithful r.graph r.options →
          (r.request layer name s).1 = r.answer layer name ∧
            (r.request layer name s).2.Faithful r.graph r.options :=
        fun name s hs => r.request_eq layer name hs
      obtain ⟨hbatch, hafter⟩ := Batch.collect_eq hwork
        (names.getD (r.graph.terms.map Term.name)) Batch.empty memory hmemory
      refine ⟨?_, hafter⟩
      rw [Batch.gather_map, ← hbatch]
      rfl

end Requests

end Glossary
