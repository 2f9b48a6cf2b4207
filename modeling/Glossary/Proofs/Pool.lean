import Mathlib.Data.List.Perm.Basic
import Mathlib.Logic.Hydra
import Glossary.Proofs.Memory
import Glossary.Resolve.Pool

/-!
A pool comes to the outcomes that its units of work have alone. Which unit makes the next step, and
which is handed in first, is not seen in the batch; and as long as there is a worker, every pool
comes to its end.
-/

namespace Glossary

namespace Resolution

variable {g : Graph} {o : ResolutionOptions} {α β : Type}

/-- What a step may leave of a resolution. -/
def Next (q p : Resolution α) : Prop :=
  p.isOver = false ∧ ∃ memory, q = (p.step memory).1

theorem wellFounded_next : WellFounded (Next (α := α)) := by
  constructor
  intro p
  induction p with
  | done value => exact Acc.intro _ fun q h => by cases h.1
  | failed error => exact Acc.intro _ fun q h => by cases h.1
  | findTable key next ih =>
      refine Acc.intro _ ?_
      rintro q ⟨-, memory, rfl⟩
      exact ih _
  | storeTable key table next ih =>
      refine Acc.intro _ ?_
      rintro q ⟨-, memory, rfl⟩
      exact ih _
  | findView key next ih =>
      refine Acc.intro _ ?_
      rintro q ⟨-, memory, rfl⟩
      exact ih _
  | storeView key view next ih =>
      refine Acc.intro _ ?_
      rintro q ⟨-, memory, rfl⟩
      exact ih _

theorem run_attempt (p : Resolution α) (memory : Memory) :
    p.attempt.run memory = (.ok (p.run memory).1, (p.run memory).2) := by
  induction p generalizing memory with
  | done value => rfl
  | failed error => rfl
  | findTable key next ih => exact ih _ memory
  | storeTable key table next ih => exact ih _ _
  | findView key next ih => exact ih _ memory
  | storeView key view next ih => exact ih _ _

theorem run_bind {p : Resolution α} {f : α → Resolution β} {memory after : Memory} {a : α}
    (h : p.run memory = (.ok a, after)) : (p.bind f).run memory = (f a).run after := by
  induction p generalizing memory with
  | done value =>
      obtain ⟨hvalue, rfl⟩ := Prod.mk.inj h
      obtain rfl := Except.ok.inj hvalue
      rfl
  | failed error => cases (Prod.mk.inj h).1
  | findTable key next ih => exact ih _ h
  | storeTable key table next ih => exact ih _ h
  | findView key next ih => exact ih _ h
  | storeView key view next ih => exact ih _ h

theorem Yields.attempt {p : Resolution α} {outcome : Except ResolutionError α}
    (h : p.Yields g o outcome) : p.attempt.Yields g o (.ok outcome) := by
  induction h with
  | done a => exact .done _
  | failed e => exact .done _
  | findTable _ _ ihNone ihSome => exact .findTable ihNone ihSome
  | storeTable ht _ ih => exact .storeTable ht ih
  | findView _ _ ihNone ihSome => exact .findView ihNone ihSome
  | storeView hv _ ih => exact .storeView hv ih

theorem Yields.exists_bind {p : Resolution α} {f : α → Resolution β} {a : α}
    (h : p.Yields g o (.ok a)) (hf : ∀ a, ∃ b, (f a).Yields g o (.ok b)) :
    ∃ b, (p.bind f).Yields g o (.ok b) := by
  obtain ⟨b, hb⟩ := hf a
  have hnext : ∀ a', (Except.ok a : Except ResolutionError α) = .ok a' →
      (f a').Yields g o (.ok b) := by
    rintro a' ⟨⟩
    exact hb
  exact ⟨b, h.bind hnext⟩

theorem Yields.eq_done_of_isOver {p : Resolution α} {a : α} (h : p.Yields g o (.ok a))
    (hover : p.isOver = true) : p = .done a := by
  cases h with
  | done => rfl
  | findTable _ _ => cases hover
  | storeTable _ _ => cases hover
  | findView _ _ => cases hover
  | storeView _ _ => cases hover

end Resolution

namespace Resolver

variable {r : Resolver} {α : Type} {resolution : Key → Resolution α}

theorem run_asking (resolution : Key → Resolution α) (name : String) (memory : Memory) :
    (r.asking resolution name).run memory =
      (.ok (r.ask resolution name memory).1, (r.ask resolution name memory).2) := by
  unfold asking ask
  cases r.graph.keyOf name with
  | error error => rfl
  | ok key => exact Resolution.run_bind (Resolution.run_attempt (resolution key) memory)

theorem exists_yields_asking {alone : Key → Except ResolutionError α}
    (hyields : ∀ key, (resolution key).Yields r.graph r.options (alone key)) (name : String) :
    ∃ outcome, (r.asking resolution name).Yields r.graph r.options (.ok outcome) := by
  unfold asking
  cases r.graph.keyOf name with
  | error error => exact ⟨_, .done _⟩
  | ok key =>
      exact (hyields key).attempt.exists_bind fun outcome => ⟨_, .done _⟩

end Resolver

namespace Pool

variable {g : Graph} {o : ResolutionOptions} {α ε : Type} {workers : Nat} {p q : Pool α}

/-- Every run of a pool ends: a unit that has been begun has only so many steps to make. -/
theorem wellFounded_step (workers : Nat) :
    WellFounded fun q p : Pool α => Step workers p q := by
  -- the waiting units count first, and then what is left of those that are running
  refine Subrelation.wf ?_ (InvImage.wf
    (fun p : Pool α => (p.waiting.length, (p.running.map Prod.snd : Multiset (Resolution α))))
    (WellFounded.prod_lex Nat.lt_wfRel.wf Resolution.wellFounded_next.cutExpand))
  intro q p h
  cases h with
  | begin _ => exact Prod.Lex.left _ _ (Nat.lt_succ_self _)
  | @advance memory n p waiting before after finished hover =>
      refine Prod.Lex.right _ ?_
      simp only [List.map_append, List.map_cons, ← Multiset.coe_add, ← Multiset.cons_coe,
        ← Multiset.singleton_add]
      rw [Relation.cutExpand_add_left, Relation.cutExpand_add_right]
      exact Relation.cutExpand_singleton_singleton ⟨hover, memory, rfl⟩
  | @finish memory n value waiting before after finished =>
      refine Prod.Lex.right _ ?_
      simp only [List.map_append, List.map_cons, ← Multiset.coe_add, ← Multiset.cons_coe,
        ← Multiset.singleton_add]
      rw [Relation.cutExpand_add_left]
      nth_rewrite 1 [← zero_add (after.map Prod.snd : Multiset (Resolution α))]
      rw [Relation.cutExpand_add_right]
      exact Relation.cutExpand_zero

/-- The unit is on the way to the outcome that its number stands for. -/
def Serves (g : Graph) (o : ResolutionOptions) (alone : List α) (u : Nat × Resolution α) : Prop :=
  ∃ a, alone[u.1]? = some a ∧ u.2.Yields g o (.ok a)

/-- The memory is faithful, every unit is on the way to its outcome alone, and none is lost. -/
structure Sound (g : Graph) (o : ResolutionOptions) (alone : List α) (p : Pool α) : Prop where
  memory_faithful : p.memory.Faithful g o
  waiting_serve : ∀ u ∈ p.waiting, Serves g o alone u
  running_serve : ∀ u ∈ p.running, Serves g o alone u
  finished_eq : ∀ f ∈ p.finished, alone[f.1]? = some f.2
  numbers_perm : (p.waiting.map Prod.fst ++ (p.running.map Prod.fst ++
    p.finished.map Prod.fst)).Perm (List.range alone.length)

theorem sound_start {memory : Memory} (hmemory : memory.Faithful g o) {work : String → Resolution α}
    {alone : String → α} (hwork : ∀ name, (work name).Yields g o (.ok (alone name)))
    (names : List String) : (start memory work names).Sound g o (names.map alone) where
  memory_faithful := hmemory
  waiting_serve := by
    intro u hu
    obtain ⟨named, hnamed, rfl⟩ := List.mem_map.mp hu
    refine ⟨alone named.1, ?_, hwork named.1⟩
    simp [List.mem_zipIdx_iff_getElem?.mp hnamed]
  running_serve := by simp [start]
  finished_eq := by simp [start]
  numbers_perm := by
    have hnumbers : names.zipIdx.map Prod.snd = List.range names.length := by
      rw [List.zipIdx_map_snd, List.range_eq_range']
    simp only [start, List.map_map, List.map_nil, List.append_nil, List.length_map]
    exact List.Perm.of_eq hnumbers

theorem Sound.step {alone : List α} (h : p.Sound g o alone) (hstep : Step workers p q) :
    q.Sound g o alone := by
  obtain ⟨hmemory, hwaiting, hrunning, hfinished, hnumbers⟩ := h
  cases hstep with
  | begin _ =>
      obtain ⟨hunit, hwaiting⟩ := List.forall_mem_cons.mp hwaiting
      refine ⟨hmemory, hwaiting, ?_, hfinished, ?_⟩
      · exact List.forall_mem_append.mpr ⟨hrunning, List.forall_mem_singleton.mpr hunit⟩
      · refine List.Perm.trans ?_ hnumbers
        simp only [List.map_append, List.map_cons, List.map_nil, List.append_assoc,
          List.cons_append, List.nil_append]
        rw [← List.append_assoc]
        exact List.perm_middle.trans (by simp)
  | advance _ =>
      obtain ⟨hbefore, hunit⟩ := List.forall_mem_append.mp hrunning
      obtain ⟨⟨a, ha, hyields⟩, hafter⟩ := List.forall_mem_cons.mp hunit
      obtain ⟨hnext, hfaithful⟩ := hyields.step hmemory
      refine ⟨hfaithful, hwaiting, ?_, hfinished, by simpa using hnumbers⟩
      exact List.forall_mem_append.mpr ⟨hbefore, List.forall_mem_cons.mpr ⟨⟨a, ha, hnext⟩, hafter⟩⟩
  | finish =>
      obtain ⟨hbefore, hunit⟩ := List.forall_mem_append.mp hrunning
      obtain ⟨⟨a, ha, hyields⟩, hafter⟩ := List.forall_mem_cons.mp hunit
      cases hyields
      refine ⟨hmemory, hwaiting, List.forall_mem_append.mpr ⟨hbefore, hafter⟩, ?_, ?_⟩
      · exact List.forall_mem_append.mpr ⟨hfinished, List.forall_mem_singleton.mpr ha⟩
      · refine List.Perm.trans (List.Perm.append_left _ ?_) hnumbers
        simp only [List.map_append, List.map_cons, List.map_nil, List.append_assoc,
          List.cons_append]
        refine List.Perm.append_left _ ?_
        rw [← List.append_assoc]
        exact List.perm_middle.trans (by simp)

/-- As long as there is a worker and something is left, a step can be made. -/
theorem Sound.exists_step {alone : List α} (h : p.Sound g o alone) (hworkers : 0 < workers)
    (hleft : p.waiting ≠ [] ∨ p.running ≠ []) : ∃ q, Step workers p q := by
  obtain ⟨memory, waiting, running, finished⟩ := p
  cases running with
  | nil =>
      cases waiting with
      | nil => simp at hleft
      | cons unit waiting => exact ⟨_, .begin hworkers⟩
  | cons unit running =>
      obtain ⟨n, rest⟩ := unit
      obtain ⟨a, -, hyields⟩ := h.running_serve (n, rest) List.mem_cons_self
      cases hover : rest.isOver with
      | false =>
          exact ⟨_, (Step.advance hover :
            Step workers ⟨memory, waiting, [] ++ (n, rest) :: running, finished⟩ _)⟩
      | true =>
          obtain rfl := hyields.eq_done_of_isOver hover
          exact ⟨_, (Step.finish :
            Step workers ⟨memory, waiting, [] ++ (n, .done a) :: running, finished⟩ _)⟩

/-- Where nothing is left, every name has its outcome alone. -/
theorem Sound.batch_eq {p : Pool (Except ε α)} {names : List String}
    {alone : String → Except ε α} (h : p.Sound g o (names.map alone)) (hwaiting : p.waiting = [])
    (hrunning : p.running = []) :
    p.batch names = Batch.gather (names.map fun name => (name, alone name)) := by
  have hlookup : ∀ named ∈ names.zipIdx, p.finished.lookup named.2 = some (alone named.1) := by
    intro named hnamed
    have hname := List.mem_zipIdx_iff_getElem?.mp hnamed
    have hmem : named.2 ∈ p.finished.map Prod.fst := by
      have hperm := h.numbers_perm
      simp only [hwaiting, hrunning, List.map_nil, List.nil_append, List.length_map] at hperm
      rw [hperm.mem_iff, List.mem_range]
      exact (List.getElem?_eq_some_iff.mp hname).1
    obtain ⟨f, hf, hnumber⟩ := List.mem_map.mp hmem
    cases hfound : p.finished.lookup named.2 with
    | none =>
        rw [List.lookup_eq_none_iff] at hfound
        exact absurd hnumber.symm (by simpa using hfound f hf)
    | some outcome =>
        obtain ⟨before, after, hsplit, -⟩ := List.lookup_eq_some_iff.mp hfound
        have houtcome := h.finished_eq (named.2, outcome) (by simp [hsplit])
        simp only [List.getElem?_map, hname, Option.map_some] at houtcome
        exact houtcome.symm
  unfold batch
  congr 1
  have hmap : ∀ named ∈ names.zipIdx, ((p.finished.lookup named.2).map fun outcome =>
      (named.1, outcome)) = some (named.1, alone named.1) := by
    intro named hnamed
    rw [hlookup named hnamed]
    rfl
  rw [List.filterMap_congr hmap]
  conv_rhs => rw [← List.zipIdx_map_fst 0 names, List.map_map]
  exact congrFun List.filterMap_eq_map' _

/-- However the workers take turns, they come to an end, and at the end of every run stands the
batch that is made one unit after the other. -/
theorem comes_to_batch {memory : Memory} (hmemory : memory.Faithful g o)
    {work : String → Resolution (Except ε α)} {alone : String → Except ε α}
    (hwork : ∀ name, (work name).Yields g o (.ok (alone name))) (names : List String)
    (hworkers : 0 < workers) {p : Pool (Except ε α)}
    (hrun : Relation.ReflTransGen (Step workers) (start memory work names) p)
    (hend : ∀ q, ¬Step workers p q) :
    p.batch names = Batch.gather (names.map fun name => (name, alone name)) := by
  have hsound : p.Sound g o (names.map alone) := by
    clear hend
    induction hrun with
    | refl => exact sound_start hmemory hwork names
    | tail _ hstep ih => exact ih.step hstep
  have hnothing : ¬(p.waiting ≠ [] ∨ p.running ≠ []) := by
    intro hleft
    obtain ⟨q, hstep⟩ := hsound.exists_step hworkers hleft
    exact hend q hstep
  simp only [not_or, not_not] at hnothing
  exact hsound.batch_eq hnothing.1 hnothing.2

end Pool

end Glossary
