import Mathlib.Data.List.Chain
import Mathlib.Data.List.Nodup
import Glossary.Term

/-!
Functions that call themselves, with a number of steps that bounds how deep the calls stand one
inside the other. Where no nest of calls is deeper than a number, that many steps are enough: the
answer is the same for any more of them.
-/

namespace Glossary

/-- A function that calls itself. With a number of steps, at most so many of its calls stand one
inside the other. -/
structure Recursion (C R : Type) where
  /-- What is done for a call, when calls are answered as given. -/
  body : (C → R) → C → R
  run : Nat → C → R
  run_succ : ∀ steps c, run (steps + 1) c = body (run steps) c
  /-- The calls that may be made for a call. -/
  Calls : C → C → Prop
  /-- The answers to no other calls are looked at. -/
  body_congr : ∀ {answer answer' : C → R} {c : C}, (∀ d, Calls c d → answer d = answer' d) →
    body answer c = body answer' c

namespace Recursion

variable {C R : Type} {r : Recursion C R} {c d : C} {calls : List C} {depth m n : Nat}

/-- The calls stand one inside the other, the first of them inside `c`. -/
def Nest (r : Recursion C R) (c : C) (calls : List C) : Prop :=
  (c :: calls).IsChain r.Calls

/-- More steps than these make no difference to the answer. -/
def SettlesAt (r : Recursion C R) (c : C) (depth : Nat) : Prop :=
  ∀ steps ≥ depth, r.run steps c = r.run depth c

theorem Nest.nil : r.Nest c [] :=
  List.IsChain.singleton c

theorem Nest.cons (hd : r.Calls c d) (h : r.Nest d calls) : r.Nest c (d :: calls) :=
  List.isChain_cons_cons.mpr ⟨hd, h⟩

theorem nest_cons_iff : r.Nest c (d :: calls) ↔ r.Calls c d ∧ r.Nest d calls :=
  List.isChain_cons_cons

theorem Nest.exists_calls (h : r.Nest c calls) : ∀ d ∈ (c :: calls).dropLast, ∃ e, r.Calls d e := by
  induction calls generalizing c with
  | nil => simp
  | cons next calls ih =>
      obtain ⟨hnext, hrest⟩ := nest_cons_iff.mp h
      exact List.forall_mem_cons.mpr ⟨⟨next, hnext⟩, ih hrest⟩

theorem Nest.forall {P : C → Prop} (h : r.Nest c calls) (hc : P c)
    (hcalls : ∀ {d e}, r.Calls d e → P e) : ∀ d ∈ c :: calls, P d := by
  induction calls generalizing c with
  | nil => exact List.forall_mem_singleton.mpr hc
  | cons next calls ih =>
      obtain ⟨hnext, hrest⟩ := nest_cons_iff.mp h
      exact List.forall_mem_cons.mpr ⟨hc, ih hrest (hcalls hnext)⟩

theorem run_eq_run (h : ∀ calls, r.Nest c calls → calls.length < depth) (hm : depth ≤ m)
    (hn : depth ≤ n) : r.run m c = r.run n c := by
  -- a nest inside a call made for `c` is one call shorter than the nest from `c` on
  induction depth generalizing c m n with
  | zero => exact absurd (h [] Nest.nil) (Nat.not_lt_zero _)
  | succ depth ih =>
      obtain ⟨m, rfl⟩ := Nat.exists_eq_add_of_le' (Nat.one_le_of_lt hm)
      obtain ⟨n, rfl⟩ := Nat.exists_eq_add_of_le' (Nat.one_le_of_lt hn)
      rw [r.run_succ, r.run_succ]
      apply r.body_congr
      intro d hd
      apply ih
      · intro calls hcalls
        exact Nat.lt_of_succ_lt_succ (h (d :: calls) (hcalls.cons hd))
      · exact Nat.le_of_succ_le_succ hm
      · exact Nat.le_of_succ_le_succ hn

theorem settlesAt_of_nests (h : ∀ calls, r.Nest c calls → calls.length < depth) :
    r.SettlesAt c depth :=
  fun _ hsteps => run_eq_run h hsteps (Nat.le_refl depth)

end Recursion

/-- Calls carry on a path the keys of the calls around them. A key that stands on the path is not
looked into again. -/
structure CallPath (C : Type) where
  path : C → List Key
  key : C → Key

namespace CallPath

variable {C R : Type} (p : CallPath C)

/-- The key of the call stands on its path. -/
def ComesBack (c : C) : Prop :=
  p.key c ∈ p.path c

/-- No call is made for one that comes back, and others put their key on the path. -/
structure IsKeptBy (r : Recursion C R) : Prop where
  fresh : ∀ {c d}, r.Calls c d → ¬ p.ComesBack c
  path_eq : ∀ {c d}, r.Calls c d → p.path d = p.path c ++ [p.key c]

/-- Inside calls with the keys `around`, the calls of a nest have other keys, all of them distinct,
until one ends the nest. Each call holds the keys of the calls around it on its path, each once. -/
structure IsDistinctUntil (Ends : C → Prop) (around : List Key) (calls : List C) : Prop where
  distinct : (around ++ calls.map p.key).Nodup ∨ ∃ before last, calls = before ++ [last] ∧
    (around ++ before.map p.key).Nodup ∧ Ends last
  path_eq : ∀ before c after, calls = before ++ c :: after → p.path c = around ++ before.map p.key
  path_nodup : ∀ c ∈ calls, (p.path c).Nodup

variable {p} {r : Recursion C R} {Ends : C → Prop} {around : List Key} {c : C} {calls : List C}

theorem IsDistinctUntil.nodup_dropLast (h : p.IsDistinctUntil Ends around calls) :
    (around ++ calls.dropLast.map p.key).Nodup := by
  rcases h.distinct with hnodup | ⟨before, last, rfl, hnodup, -⟩
  · have hsub : (calls.dropLast.map p.key).Sublist (calls.map p.key) :=
      (List.dropLast_sublist calls).map p.key
    exact hnodup.sublist (hsub.append_left around)
  · rwa [List.dropLast_concat]

theorem IsDistinctUntil.ends_last {last : C} (h : p.IsDistinctUntil Ends around (calls ++ [last]))
    (hagain : ¬ (around ++ (calls ++ [last]).map p.key).Nodup) : Ends last := by
  rcases h.distinct with hnodup | ⟨before, last', heq, -, hlast⟩
  · exact absurd hnodup hagain
  · rwa [List.singleton_inj.mp (List.append_inj_right' heq rfl)]

theorem nodup_concat (hc : ¬ p.ComesBack c) (hpath : (p.path c).Nodup) :
    (p.path c ++ [p.key c]).Nodup :=
  List.concat_eq_append ▸ List.Nodup.concat hc hpath

theorem isDistinctUntil_nil (h : around.Nodup) : p.IsDistinctUntil Ends around [] where
  distinct := Or.inl (by simpa using h)
  path_eq := by simp
  path_nodup := by simp

theorem path_eq_of_split_cons
    (h : ∀ before d after, calls = before ++ d :: after →
      p.path d = p.path c ++ [p.key c] ++ before.map p.key) :
    ∀ before d after, c :: calls = before ++ d :: after →
      p.path d = p.path c ++ before.map p.key := by
  intro before d after hsplit
  cases before with
  | nil =>
      obtain ⟨rfl, -⟩ := List.cons.inj hsplit
      exact (List.append_nil _).symm
  | cons first before =>
      obtain ⟨rfl, hrest⟩ := List.cons.inj hsplit
      rw [h before d after hrest, List.map_cons, List.append_assoc, List.singleton_append]

theorem isDistinctUntil_of_ends (hends : Ends c) (hc : (p.path c).Nodup) :
    p.IsDistinctUntil Ends (p.path c) [c] where
  distinct := Or.inr ⟨[], c, rfl, by simpa using hc, hends⟩
  path_eq := path_eq_of_split_cons (by simp)
  path_nodup := List.forall_mem_singleton.mpr hc

/-- A call whose key is new puts it on the path of the calls inside. -/
theorem IsDistinctUntil.cons (h : p.IsDistinctUntil Ends (p.path c ++ [p.key c]) calls)
    (hc : (p.path c).Nodup) : p.IsDistinctUntil Ends (p.path c) (c :: calls) where
  distinct := by
    rcases h.distinct with hnodup | ⟨before, last, rfl, hnodup, hlast⟩
    · exact Or.inl (by simpa using hnodup)
    · exact Or.inr ⟨c :: before, last, rfl, by simpa using hnodup, hlast⟩
  path_eq := path_eq_of_split_cons h.path_eq
  path_nodup := List.forall_mem_cons.mpr ⟨hc, h.path_nodup⟩

theorem IsKeptBy.isDistinctUntil (h : p.IsKeptBy r) (hends : ∀ d, p.ComesBack d → Ends d)
    (hc : (p.path c).Nodup) (hnest : r.Nest c calls) :
    p.IsDistinctUntil Ends (p.path c) (c :: calls) := by
  induction calls generalizing c with
  | nil =>
      by_cases hback : p.ComesBack c
      · exact isDistinctUntil_of_ends (hends c hback) hc
      · exact (isDistinctUntil_nil (nodup_concat hback hc)).cons hc
  | cons d calls ih =>
      obtain ⟨hd, hrest⟩ := Recursion.nest_cons_iff.mp hnest
      have hpath : (p.path d).Nodup := h.path_eq hd ▸ nodup_concat (h.fresh hd) hc
      have hinside := ih hpath hrest
      rw [h.path_eq hd] at hinside
      exact hinside.cons hc

/-- From `c` on, the calls have distinct keys until one ends the nest, no nest is deeper than
`depth`, and so many steps are enough for the answer. -/
structure EndsWithin (p : CallPath C) (r : Recursion C R) (Ends : C → Prop) (c : C)
    (depth : Nat) : Prop where
  settles : r.SettlesAt c depth
  distinct : ∀ calls, r.Nest c calls → p.IsDistinctUntil Ends (p.path c) (c :: calls)
  length_le : ∀ calls, r.Nest c calls → (c :: calls).length ≤ depth

/-- Keys that are distinct and lie among `depth` many bound the nests. -/
theorem IsKeptBy.endsWithin {depth : Nat} (h : p.IsKeptBy r) (hends : ∀ d, p.ComesBack d → Ends d)
    (hc : (p.path c).Nodup)
    (hlength : ∀ calls, r.Nest c calls →
      (p.path c ++ (c :: calls).dropLast.map p.key).Nodup → (c :: calls).length ≤ depth) :
    p.EndsWithin r Ends c depth := by
  have hdistinct : ∀ calls, r.Nest c calls →
      p.IsDistinctUntil Ends (p.path c) (c :: calls) :=
    fun _ hnest => h.isDistinctUntil hends hc hnest
  have hle : ∀ calls, r.Nest c calls → (c :: calls).length ≤ depth :=
    fun calls hnest => hlength calls hnest (hdistinct calls hnest).nodup_dropLast
  exact ⟨Recursion.settlesAt_of_nests hle, hdistinct, hle⟩

end CallPath

end Glossary
