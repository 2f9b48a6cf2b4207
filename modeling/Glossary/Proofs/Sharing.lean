import Mathlib.Data.Nat.Find
import Glossary.Proofs.Memory
import Glossary.Proofs.ViewAssembly

/-!
Calls that share a memory come to what each of them comes to alone, whichever way their steps are
interleaved, and every call that goes on making steps comes to its end.
-/

namespace Glossary

open Fallible

variable {r : Resolver} {events : Nat → Event} {s : Sharing} {c : Call} {memory : Memory}
  {i n : Nat}

namespace Call

/-- What is left of the call yields what its request is answered alone. -/
def Serves (r : Resolver) (c : Call) : Prop :=
  match r.graph.keyOf c.name with
  | .error error => c.rest = .error error
  | .ok key => ∃ p, c.rest = .ok p ∧
      p.Yields r.graph r.options (r.graph.schema r.options c.layer key)

@[simp] theorem step_layer (c : Call) (memory : Memory) : (c.step memory).1.layer = c.layer := by
  unfold step
  cases c.rest with
  | error error => rfl
  | ok p => rfl

@[simp] theorem step_name (c : Call) (memory : Memory) : (c.step memory).1.name = c.name := by
  unfold step
  cases c.rest with
  | error error => rfl
  | ok p => rfl

theorem serves_call (r : Resolver) (layer : Layer) (name : String) :
    (r.call layer name).Serves r := by
  unfold Serves Resolver.call
  dsimp only
  cases r.graph.keyOf name with
  | error error => rfl
  | ok key => exact ⟨_, rfl, Resolution.yields_schema r.graph r.options layer key⟩

theorem Serves.step (h : c.Serves r) (hmemory : memory.Faithful r.graph r.options) :
    (c.step memory).1.Serves r ∧ (c.step memory).2.Faithful r.graph r.options := by
  unfold Serves at h ⊢
  rw [step_layer, step_name]
  cases hkey : r.graph.keyOf c.name with
  | error error =>
      rw [hkey] at h
      unfold Call.step
      rw [h]
      exact ⟨h, hmemory⟩
  | ok key =>
      rw [hkey] at h
      obtain ⟨p, hrest, hyields⟩ := h
      obtain ⟨hnext, hafter⟩ := hyields.step hmemory
      unfold Call.step
      rw [hrest]
      exact ⟨⟨_, rfl, hnext⟩, hafter⟩

theorem Serves.answer_eq (h : c.Serves r) {answer : Except RequestError Schema}
    (hanswer : c.answer? = some answer) : answer = r.answer c.layer c.name := by
  unfold Serves at h
  unfold answer? at hanswer
  unfold Resolver.answer
  cases hkey : r.graph.keyOf c.name with
  | error error =>
      rw [hkey] at h
      rw [h] at hanswer
      exact (Option.some.inj hanswer).symm
  | ok key =>
      rw [hkey] at h
      obtain ⟨p, hrest, hyields⟩ := h
      rw [hrest] at hanswer
      generalize houtcome : r.graph.schema r.options c.layer key = outcome at hyields
      -- a resolution that is not at its end has no answer yet
      cases hyields with
      | done schema =>
          obtain rfl := Option.some.inj hanswer
          simp [Except.mapError, bind, Except.bind, houtcome]
      | failed error =>
          obtain rfl := Option.some.inj hanswer
          simp [Except.mapError, bind, Except.bind, houtcome]
      | findTable _ _ => cases hanswer
      | storeTable _ _ => cases hanswer
      | findView _ _ => cases hanswer
      | storeView _ _ => cases hanswer

end Call

namespace Sharing

/-- The memory is faithful and all calls are on the way to their answers. -/
structure Sound (r : Resolver) (s : Sharing) : Prop where
  memory_faithful : s.memory.Faithful r.graph r.options
  calls_serve : ∀ c ∈ s.calls, c.Serves r

theorem sound_start (r : Resolver) : Sharing.start.Sound r where
  memory_faithful := Memory.faithful_empty
  calls_serve := by simp [Sharing.start]

theorem Sound.advance (h : s.Sound r) (n : Nat) : (s.advance n).Sound r := by
  unfold Sharing.advance
  cases hc : s.calls[n]? with
  | none => exact h
  | some c =>
      obtain ⟨hserves, hafter⟩ :=
        (h.calls_serve c (List.mem_of_getElem? hc)).step h.memory_faithful
      refine ⟨hafter, ?_⟩
      intro c' hc'
      rcases List.mem_or_eq_of_mem_set hc' with hc' | rfl
      · exact h.calls_serve c' hc'
      · exact hserves

theorem Sound.after (h : s.Sound r) (e : Event) : (s.after r e).Sound r := by
  cases e with
  | begin layer name =>
      refine ⟨h.memory_faithful, ?_⟩
      apply List.forall_mem_append.mpr ⟨h.calls_serve, _⟩
      exact List.forall_mem_singleton.mpr (Call.serves_call r layer name)
  | advance n => exact h.advance n
  | request layer name => exact ⟨(r.request_eq layer name h.memory_faithful).2, h.calls_serve⟩
  | requestTable name => exact ⟨r.faithful_requestTable name h.memory_faithful, h.calls_serve⟩
  | requestView name => exact ⟨r.faithful_requestView name h.memory_faithful, h.calls_serve⟩
  | requestAll layer names workers =>
      exact ⟨(r.requestAll_eq layer names workers h.memory_faithful).2, h.calls_serve⟩

theorem after_calls_of_ne {e : Event} (hc : s.calls[i]? = some c) (he : e ≠ .advance i) :
    (s.after r e).calls[i]? = some c := by
  cases e with
  | begin layer name =>
      obtain ⟨hi, -⟩ := List.getElem?_eq_some_iff.mp hc
      exact (List.getElem?_append_left hi).trans hc
  | advance n =>
      have hne : n ≠ i := by
        rintro rfl
        exact he rfl
      simp only [Sharing.after, Sharing.advance]
      split
      · exact hc
      · exact (List.getElem?_set_ne hne).trans hc
  | request layer name => exact hc
  | requestTable name => exact hc
  | requestView name => exact hc
  | requestAll layer names workers => exact hc

theorem advance_calls (hc : s.calls[i]? = some c) :
    (s.advance i).calls[i]? = some (c.step s.memory).1 := by
  obtain ⟨hi, -⟩ := List.getElem?_eq_some_iff.mp hc
  simp only [Sharing.advance, hc]
  exact List.getElem?_set_self hi

end Sharing

namespace Resolver

theorem sound_history (r : Resolver) (events : Nat → Event) (n : Nat) :
    (r.history events n).Sound r := by
  induction n with
  | zero => exact Sharing.sound_start r
  | succ n ih => exact ih.after (events n)

/-- The `i`-th call makes steps again and again. -/
def KeepsStepping (events : Nat → Event) (i : Nat) : Prop :=
  ∀ m, ∃ k ≥ m, events k = .advance i

theorem history_calls_of_ne (hc : (r.history events n).calls[i]? = some c) {k : Nat} (hle : n ≤ k)
    (hquiet : ∀ j, n ≤ j → j < k → events j ≠ .advance i) :
    (r.history events k).calls[i]? = some c := by
  induction k, hle using Nat.le_induction with
  | base => exact hc
  | succ k hle ih =>
      apply Sharing.after_calls_of_ne _ (hquiet k hle (Nat.lt_succ_self k))
      exact ih fun j hj hlt => hquiet j hj (Nat.lt_succ_of_lt hlt)

theorem exists_step (hkeeps : KeepsStepping events i)
    (hc : (r.history events n).calls[i]? = some c) :
    ∃ k ≥ n, ∃ memory, (r.history events (k + 1)).calls[i]? = some (c.step memory).1 := by
  classical
  have hnext : ∃ k, n ≤ k ∧ events k = .advance i := hkeeps n
  obtain ⟨hle, hevent⟩ := Nat.find_spec hnext
  have hquiet : ∀ j, n ≤ j → j < Nat.find hnext → events j ≠ .advance i := by
    intro j hj hlt hadvance
    exact Nat.find_min hnext hlt ⟨hj, hadvance⟩
  refine ⟨Nat.find hnext, hle, (r.history events (Nat.find hnext)).memory, ?_⟩
  rw [history, hevent]
  exact Sharing.advance_calls (history_calls_of_ne hc hle hquiet)

/-- From the `n`-th event on, the `i`-th call comes to an answer of the request of `c`. -/
def ComesToAnswer (r : Resolver) (events : Nat → Event) (i n : Nat) (c : Call) : Prop :=
  ∃ m ≥ n, ∃ c', (r.history events m).calls[i]? = some c' ∧ c'.layer = c.layer ∧
    c'.name = c.name ∧ c'.answer?.isSome = true

theorem comesToAnswer_of_step (hkeeps : KeepsStepping events i)
    (hc : (r.history events n).calls[i]? = some c)
    (hnext : ∀ memory k, (r.history events k).calls[i]? = some (c.step memory).1 →
      r.ComesToAnswer events i k (c.step memory).1) : r.ComesToAnswer events i n c := by
  obtain ⟨k, hk, memory, hstep⟩ := exists_step hkeeps hc
  obtain ⟨m, hm, c', hc', hlayer, hname, hanswer⟩ := hnext memory (k + 1) hstep
  rw [Call.step_layer] at hlayer
  rw [Call.step_name] at hname
  exact ⟨m, by omega, c', hc', hlayer, hname, hanswer⟩

/-- A resolution has only so many steps to make, whatever it finds on the way. -/
theorem comesToAnswer (hkeeps : KeepsStepping events i) {p : Resolution Schema}
    (hc : (r.history events n).calls[i]? = some c) (hrest : c.rest = .ok p) :
    r.ComesToAnswer events i n c := by
  induction p generalizing n c with
  | done schema => exact ⟨n, le_refl n, c, hc, rfl, rfl, by simp [Call.answer?, hrest]⟩
  | failed error => exact ⟨n, le_refl n, c, hc, rfl, rfl, by simp [Call.answer?, hrest]⟩
  | findTable key next ih =>
      apply comesToAnswer_of_step hkeeps hc
      intro memory k hstep
      exact ih (memory.table? key) hstep (by simp [Call.step, hrest, Resolution.step])
  | storeTable key t next ih =>
      apply comesToAnswer_of_step hkeeps hc
      intro memory k hstep
      exact ih (memory.storeTable key t).1 hstep (by simp [Call.step, hrest, Resolution.step])
  | findView key next ih =>
      apply comesToAnswer_of_step hkeeps hc
      intro memory k hstep
      exact ih (memory.view? key) hstep (by simp [Call.step, hrest, Resolution.step])
  | storeView key v next ih =>
      apply comesToAnswer_of_step hkeeps hc
      intro memory k hstep
      exact ih (memory.storeView key v).1 hstep (by simp [Call.step, hrest, Resolution.step])

/-- The answers of calls that have come to their ends, one for each name. -/
def Collected (r : Resolver) (events : Nat → Event) (n : Nat) (layer : Layer)
    (names : List String) (answers : List (Except RequestError Schema)) : Prop :=
  List.Forall₂ (fun name answer => ∃ c ∈ (r.history events n).calls,
    c.layer = layer ∧ c.name = name ∧ c.answer? = some answer) names answers

/-- What happens on a shared memory is not seen in any answer: each is the one that a resolver with
an empty memory gives to the request alone. The memory holds whole schemas only, and nothing of a
term whose resolution fails. -/
structure HidesMemory (r : Resolver) (events : Nat → Event) : Prop where
  alone_eq : ∀ layer name, (r.request layer name Memory.empty).1 = r.answer layer name
  calls_answer : ∀ n, ∀ c ∈ (r.history events n).calls, ∀ answer, c.answer? = some answer →
    answer = (r.request c.layer c.name Memory.empty).1
  calls_return : ∀ n i c, (r.history events n).calls[i]? = some c → KeepsStepping events i →
    ∃ m ≥ n, ∃ c', (r.history events m).calls[i]? = some c' ∧
      c'.answer? = some (r.request c.layer c.name Memory.empty).1
  requests_answer : ∀ n layer name, (r.request layer name (r.history events n).memory).1 =
    (r.request layer name Memory.empty).1
  tables_answer : ∀ n name, (r.requestTable name (r.history events n).memory).1 =
    (r.requestTable name Memory.empty).1
  views_answer : ∀ n name, (r.requestView name (r.history events n).memory).1 =
    (r.requestView name Memory.empty).1
  batches_answer : ∀ n layer names workers,
    (r.requestAll layer names workers (r.history events n).memory).1 =
      (requireWorkers workers).map fun _ =>
        Batch.gather ((names.getD (r.graph.terms.map Term.name)).map fun name =>
          (name, (r.request layer name Memory.empty).1))
  batches_collected : ∀ n layer names answers, r.Collected events n layer names answers →
    Batch.gather (names.zip answers) =
      Batch.gather (names.map fun name => (name, (r.request layer name Memory.empty).1))
  memory_faithful : ∀ n, (r.history events n).memory.Faithful r.graph r.options
  failures_forgotten : ∀ n key e,
    (r.graph.table r.options key = .error e → (r.history events n).memory.table? key = none) ∧
      (r.graph.view r.options key = .error e → (r.history events n).memory.view? key = none)

theorem zip_eq_map_of_collected {layer : Layer} {names : List String}
    {answers : List (Except RequestError Schema)}
    (h : r.Collected events n layer names answers) :
    names.zip answers = names.map fun name => (name, r.answer layer name) := by
  induction h with
  | nil => rfl
  | @cons name answer names answers hcall _ ih =>
      obtain ⟨c, hc, rfl, rfl, hanswer⟩ := hcall
      have heq := ((r.sound_history events n).calls_serve c hc).answer_eq hanswer
      rw [List.zip_cons_cons, List.map_cons, ih, heq]

/-- The memory is not noticed: not by calls that are interleaved in any way, and not by requests
that are answered between them. -/
theorem hidesMemory (r : Resolver) (events : Nat → Event) : r.HidesMemory events := by
  have hsound := r.sound_history events
  have halone : ∀ layer name, (r.request layer name Memory.empty).1 = r.answer layer name :=
    fun layer name => (r.request_eq layer name Memory.faithful_empty).1
  constructor
  case alone_eq => exact halone
  case calls_answer =>
    intro n c hc answer hanswer
    rw [halone]
    exact ((hsound n).calls_serve c hc).answer_eq hanswer
  case calls_return =>
    intro n i c hc hkeeps
    have hcomes : r.ComesToAnswer events i n c := by
      cases hrest : c.rest with
      | error error => exact ⟨n, le_refl n, c, hc, rfl, rfl, by simp [Call.answer?, hrest]⟩
      | ok p => exact comesToAnswer hkeeps hc hrest
    obtain ⟨m, hm, c', hc', hlayer, hname, hanswer⟩ := hcomes
    obtain ⟨answer, hanswer⟩ := Option.isSome_iff_exists.mp hanswer
    have heq := ((hsound m).calls_serve c' (List.mem_of_getElem? hc')).answer_eq hanswer
    refine ⟨m, hm, c', hc', ?_⟩
    rw [hanswer, heq, halone, hlayer, hname]
  case requests_answer =>
    intro n layer name
    rw [halone]
    exact (r.request_eq layer name (hsound n).memory_faithful).1
  case tables_answer =>
    intro n name
    have hyields := fun key => Resolution.yields_table r.graph r.options key
    exact ask_eq_ask hyields hyields rfl (fun _ _ => rfl) (hsound n).memory_faithful
      Memory.faithful_empty
  case views_answer =>
    intro n name
    have hyields := fun key => Resolution.yields_view r.graph r.options key
    exact ask_eq_ask hyields hyields rfl (fun _ _ => rfl) (hsound n).memory_faithful
      Memory.faithful_empty
  case batches_answer =>
    intro n layer names workers
    simp only [halone]
    exact (r.requestAll_eq layer names workers (hsound n).memory_faithful).1
  case batches_collected =>
    intro n layer names answers hcollected
    simp only [halone]
    rw [zip_eq_map_of_collected hcollected]
  case memory_faithful => exact fun n => (hsound n).memory_faithful
  case failures_forgotten =>
    intro n key e
    constructor
    · intro herror
      apply Option.eq_none_iff_forall_ne_some.mpr
      intro t ht
      cases herror.symm.trans ((hsound n).memory_faithful.table_eq_ok key t ht)
    · intro herror
      apply Option.eq_none_iff_forall_ne_some.mpr
      intro v hv
      cases herror.symm.trans ((hsound n).memory_faithful.view_eq_ok key v hv)

/-- Two calls that take turns. -/
def turns : Nat → Event
  | 0 => .begin .logical "Report"
  | 1 => .begin .logical "Manager"
  | n + 2 => .advance (n % 2)

theorem keepsStepping_turns : KeepsStepping turns 0 ∧ KeepsStepping turns 1 := by
  constructor
  · intro m
    refine ⟨2 * m + 2, by omega, ?_⟩
    rw [turns, Nat.mul_mod_right]
  · intro m
    refine ⟨2 * m + 1 + 2, by omega, ?_⟩
    rw [turns, Nat.mul_add_mod]

theorem report_manager_return :
    (∃ n c, ((mk staff .standard).history turns n).calls[0]? = some c ∧
      c.answer? = some ((mk staff .standard).request .logical "Report" .empty).1) ∧
    ∃ n c, ((mk staff .standard).history turns n).calls[1]? = some c ∧
      c.answer? = some ((mk staff .standard).request .logical "Manager" .empty).1 := by
  obtain ⟨hfirst, hsecond⟩ := keepsStepping_turns
  have hhides := hidesMemory (mk staff .standard) turns
  obtain ⟨n, -, c, hc, hanswer⟩ := hhides.calls_return 2 0 _ rfl hfirst
  obtain ⟨n', -, c', hc', hanswer'⟩ := hhides.calls_return 2 1 _ rfl hsecond
  exact ⟨⟨n, c, hc, hanswer⟩, n', c', hc', hanswer'⟩

end Resolver

end Glossary
