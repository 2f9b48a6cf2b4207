import Mathlib.Data.List.Nodup
import Mathlib.Data.List.Perm.Subperm
import Mathlib.Logic.Relation
import Glossary.Proofs.Fallible
import Glossary.Resolve.Inheritance

/-!
The search for cycles of `is a` statements finds one exactly when one is reached.
-/

namespace Glossary.Graph

open Fallible

def Inherits (g : Graph) (key parent : Key) : Prop :=
  parent ∈ g.parents key

/-- Some cycle of `is a` statements is reached along `is a` statements. -/
def ReachesCycle (g : Graph) (key : Key) : Prop :=
  ∃ c, Relation.ReflTransGen g.Inherits key c ∧ Relation.TransGen g.Inherits c c

theorem ReachesCycle.of_reflTransGen {g : Graph} {key a : Key}
    (hreach : Relation.ReflTransGen g.Inherits key a) (h : g.ReachesCycle a) :
    g.ReachesCycle key := by
  obtain ⟨c, hc, hcycle⟩ := h
  exact ⟨c, hreach.trans hc, hcycle⟩

theorem reachesCycle_iff_exists_parent {g : Graph} {key : Key} :
    g.ReachesCycle key ↔ ∃ parent ∈ g.parents key, g.ReachesCycle parent := by
  constructor
  · rintro ⟨c, hreach, hcycle⟩
    -- the way to the cycle, or the cycle itself when the term lies on it, begins with a parent
    have hround : Relation.TransGen g.Inherits key c := Relation.TransGen.trans_right hreach hcycle
    obtain ⟨parent, hparent, hrest⟩ := Relation.TransGen.head'_iff.mp hround
    exact ⟨parent, hparent, c, hrest, hcycle⟩
  · rintro ⟨parent, hparent, h⟩
    exact h.of_reflTransGen (Relation.ReflTransGen.single hparent)

theorem declares_of_link {g : Graph} {key : Key} {l : Link} (h : l ∈ g.links key) :
    g.declares key = true := by
  unfold links at h
  unfold declares
  cases hentry : g.entry? key with
  | none => simp [hentry] at h
  | some e => rfl

theorem declares_of_isEntity {g : Graph} {key : Key} (h : g.isEntity key = true) :
    g.declares key = true := by
  unfold isEntity at h
  unfold declares
  cases hentry : g.entry? key with
  | none => simp [hentry] at h
  | some e => rfl

theorem declares_of_inherits {g : Graph} {key parent : Key} (h : g.Inherits key parent) :
    g.declares key = true := by
  simp only [Inherits, parents, List.mem_map, List.mem_filter] at h
  obtain ⟨l, ⟨hl, -⟩, -⟩ := h
  exact declares_of_link hl

theorem mem_keys_of_declares {g : Graph} {key : Key} (h : g.declares key = true) :
    key ∈ g.keys := by
  obtain ⟨e, he⟩ := Option.isSome_iff_exists.mp h
  refine List.mem_map.mpr ⟨e, List.mem_of_find?_eq_some he, ?_⟩
  simpa using List.find?_some he

theorem length_le_size {g : Graph} {keys : List Key} (hnodup : keys.Nodup)
    (hdeclared : ∀ k ∈ keys, g.declares k = true) : keys.length ≤ g.size := by
  have hsub : keys ⊆ g.keys := fun k hk => mem_keys_of_declares (hdeclared k hk)
  have hle := (List.subperm_of_subset hnodup hsub).length_le
  simpa only [Graph.keys, size, List.length_map] using hle

theorem nodup_append_singleton {keys : List Key} {key : Key} (h : keys.Nodup)
    (hfresh : key ∉ keys) : (keys ++ [key]).Nodup := by
  rw [← List.concat_eq_append]
  exact List.Nodup.concat hfresh h

/-- The terms of the list are distinct, and all of them inherit from `key`. -/
structure StandBelow (g : Graph) (keys : List Key) (key : Key) : Prop where
  nodup : keys.Nodup
  inherit : ∀ k ∈ keys, Relation.TransGen g.Inherits k key

theorem StandBelow.nil {g : Graph} {key : Key} : g.StandBelow [] key where
  nodup := List.nodup_nil
  inherit := by simp

theorem StandBelow.append {g : Graph} {keys : List Key} {key parent : Key}
    (h : g.StandBelow keys key) (hfresh : key ∉ keys) (hparent : g.Inherits key parent) :
    g.StandBelow (keys ++ [key]) parent where
  nodup := nodup_append_singleton h.nodup hfresh
  inherit := List.forall_mem_append.mpr ⟨fun k hk => (h.inherit k hk).tail hparent,
    List.forall_mem_singleton.mpr (Relation.TransGen.single hparent)⟩

theorem StandBelow.length_le_size {g : Graph} {keys : List Key} {key : Key}
    (h : g.StandBelow keys key) : keys.length ≤ g.size := by
  refine Graph.length_le_size h.nodup fun k hk => ?_
  obtain ⟨parent, hparent, -⟩ := Relation.TransGen.head'_iff.mp (h.inherit k hk)
  exact declares_of_inherits hparent

/-- What a successful walk from `keys` makes of the keys that are known to reach no cycle. -/
structure Clears (g : Graph) (keys done after : List Key) : Prop where
  keeps : done ⊆ after
  covers : keys ⊆ after
  acyclic : (∀ k ∈ done, ¬ g.ReachesCycle k) → ∀ k ∈ after, ¬ g.ReachesCycle k

theorem Clears.trans {g : Graph} {keys keys' done after last : List Key}
    (h : g.Clears keys done after) (h' : g.Clears keys' after last) :
    g.Clears (keys ++ keys') done last where
  keeps := List.Subset.trans h.keeps h'.keeps
  covers := List.append_subset.mpr ⟨List.Subset.trans h.covers h'.keeps, h'.covers⟩
  acyclic := h'.acyclic ∘ h.acyclic

theorem clears_of_foldlM {g : Graph} {walk : List Key → Key → Except ResolutionError (List Key)}
    (hwalk : ∀ {done key after}, walk done key = .ok after → g.Clears [key] done after)
    {keys done after : List Key} (h : keys.foldlM walk done = .ok after) :
    g.Clears keys done after := by
  induction keys generalizing done with
  | nil =>
      obtain rfl := Except.ok.inj h
      exact ⟨List.Subset.refl _, List.nil_subset _, id⟩
  | cons key keys ih =>
      obtain ⟨next, hnext, hrest⟩ := foldlM_cons_eq_ok_iff.mp h
      exact (hwalk hnext).trans (ih hrest)

theorem walkParents_clears {g : Graph} {root : Key} {steps : Nat} {path done after : List Key}
    {key : Key} (h : g.walkParents root steps path done key = .ok after) :
    g.Clears [key] done after := by
  induction steps generalizing path done key after with
  | zero => cases h
  | succ steps ih =>
      rw [walkParents] at h
      split at h
      · cases h
      · split at h
        · rename_i hdone
          obtain rfl := Except.ok.inj h
          exact ⟨List.Subset.refl _, by simpa using hdone, id⟩
        · obtain ⟨cleared, hfold, hafter⟩ := bind_eq_ok_iff.mp h
          obtain rfl := Except.ok.inj hafter
          have hparents := clears_of_foldlM ih hfold
          refine ⟨List.Subset.trans hparents.keeps (List.subset_append_left _ _), by simp, ?_⟩
          intro hacyclic k hk
          rcases List.mem_append.mp hk with hk | hk
          · exact hparents.acyclic hacyclic k hk
          · rw [List.mem_singleton.mp hk, reachesCycle_iff_exists_parent]
            rintro ⟨parent, hparent, hcycle⟩
            exact hparents.acyclic hacyclic parent (hparents.covers hparent) hcycle

/-- A walk fails only at a cycle: `path` leads to `key`, and it has room for all terms. -/
theorem reachesCycle_of_walkParents_eq_error {g : Graph} {root : Key} {steps : Nat}
    {path done : List Key} {key : Key} {e : ResolutionError}
    (h : g.walkParents root steps path done key = .error e) (hpath : g.StandBelow path key)
    (hsteps : g.size < steps + path.length) :
    g.ReachesCycle key ∧ ∃ cycle, e = .cyclicInheritance (g.label root) cycle := by
  induction steps generalizing path done key with
  | zero =>
      have hle := hpath.length_le_size
      omega
  | succ steps ih =>
      rw [walkParents] at h
      split at h
      · rename_i hmem
        refine ⟨⟨key, Relation.ReflTransGen.refl, hpath.inherit key hmem⟩, ?_⟩
        exact ⟨_, (Except.error.inj h).symm⟩
      · rename_i hfresh
        split at h
        · cases h
        · rcases bind_eq_error_iff.mp h with h | ⟨after, -, h⟩
          · obtain ⟨parent, hparent, done', hfail⟩ := exists_of_foldlM_eq_error h
            obtain ⟨hcycle, herror⟩ := ih hfail (hpath.append hfresh hparent) (by simp; omega)
            exact ⟨reachesCycle_iff_exists_parent.mpr ⟨parent, hparent, hcycle⟩, herror⟩
          · cases h

theorem requireAcyclic_eq_error {g : Graph} {key : Key} {e : ResolutionError}
    (h : g.requireAcyclic key = .error e) :
    g.ReachesCycle key ∧ ∃ cycle, e = .cyclicInheritance (g.label key) cycle := by
  rcases bind_eq_error_iff.mp h with h | ⟨after, -, h⟩
  · exact reachesCycle_of_walkParents_eq_error h StandBelow.nil (by simp [stepBound])
  · cases h

theorem requireAcyclic_eq_ok_iff {g : Graph} {key : Key} :
    g.requireAcyclic key = .ok () ↔ ¬ g.ReachesCycle key := by
  constructor
  · intro h
    obtain ⟨after, hwalk, -⟩ := bind_eq_ok_iff.mp h
    have hclears := walkParents_clears hwalk
    exact hclears.acyclic (by simp) key (hclears.covers (by simp))
  · intro hacyclic
    cases h : g.requireAcyclic key with
    | ok u => rfl
    | error e => exact absurd (requireAcyclic_eq_error h).1 hacyclic

end Glossary.Graph
