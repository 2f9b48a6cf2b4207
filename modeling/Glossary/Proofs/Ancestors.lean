import Mathlib.Data.List.Nodup
import Mathlib.Data.Nat.Find
import Mathlib.Logic.Relation
import Glossary.Proofs.InheritanceCycles

/-!
The ancestors of a term are all terms that it inherits from, each once and nearest first.
-/

namespace Glossary.Graph

/-- The terms that `n` statements `is a` in a row lead to. -/
def generation (g : Graph) (key : Key) : Nat → List Key
  | 0 => [key]
  | n + 1 => (g.generation key n).flatMap g.parents

/-- The term `a` is reached by `n` statements `is a` in a row, and not by fewer. -/
def IsAtDistance (g : Graph) (key : Key) (n : Nat) (a : Key) : Prop :=
  a ∈ g.generation key n ∧ ∀ m < n, a ∉ g.generation key m

/-- The term `a` is at most as far from `key` as the term `b`. -/
def IsAsNear (g : Graph) (key a b : Key) : Prop :=
  ∃ m n, m ≤ n ∧ g.IsAtDistance key m a ∧ g.IsAtDistance key n b

/-- The list holds exactly the terms that `key` inherits from, each once and nearest first. -/
structure ListsAncestors (g : Graph) (key : Key) (keys : List Key) : Prop where
  nodup : keys.Nodup
  mem_iff : ∀ a, a ∈ keys ↔ Relation.TransGen g.Inherits key a
  nearest : keys.Pairwise (g.IsAsNear key)

variable {g : Graph} {key a b : Key} {m n : Nat}

theorem mem_generation_succ_iff :
    b ∈ g.generation key (n + 1) ↔ ∃ a ∈ g.generation key n, g.Inherits a b := by
  simp only [generation, List.mem_flatMap, Inherits]

theorem reflTransGen_iff_exists_mem_generation :
    Relation.ReflTransGen g.Inherits key a ↔ ∃ n, a ∈ g.generation key n := by
  constructor
  · intro h
    induction h with
    | refl => exact ⟨0, List.mem_singleton.mpr rfl⟩
    | tail _ hparent ih =>
        obtain ⟨n, hn⟩ := ih
        exact ⟨n + 1, mem_generation_succ_iff.mpr ⟨_, hn, hparent⟩⟩
  · rintro ⟨n, hn⟩
    induction n generalizing a with
    | zero =>
        rw [List.mem_singleton.mp hn]
    | succ n ih =>
        obtain ⟨b, hb, hparent⟩ := mem_generation_succ_iff.mp hn
        exact (ih hb).tail hparent

theorem exists_isAtDistance_of_mem_generation (h : a ∈ g.generation key n) :
    ∃ m ≤ n, g.IsAtDistance key m a := by
  classical
  let hexists : ∃ m, a ∈ g.generation key m := ⟨n, h⟩
  exact ⟨Nat.find hexists, Nat.find_min' hexists h, Nat.find_spec hexists,
    fun m hm => Nat.find_min hexists hm⟩

theorem reflTransGen_iff_exists_isAtDistance :
    Relation.ReflTransGen g.Inherits key a ↔ ∃ n, g.IsAtDistance key n a := by
  rw [reflTransGen_iff_exists_mem_generation]
  constructor
  · rintro ⟨n, hn⟩
    obtain ⟨m, -, hm⟩ := exists_isAtDistance_of_mem_generation hn
    exact ⟨m, hm⟩
  · rintro ⟨n, hn⟩
    exact ⟨n, hn.1⟩

theorem IsAtDistance.unique (hm : g.IsAtDistance key m a) (hn : g.IsAtDistance key n a) :
    m = n := by
  rcases Nat.lt_trichotomy m n with h | h | h
  · exact absurd hm.1 (hn.2 m h)
  · exact h
  · exact absurd hn.1 (hm.2 n h)

/-- The last step to a term comes from a term that is one step nearer. -/
theorem IsAtDistance.exists_child (h : g.IsAtDistance key (n + 1) b) :
    ∃ a, g.IsAtDistance key n a ∧ g.Inherits a b := by
  obtain ⟨a, ha, hparent⟩ := mem_generation_succ_iff.mp h.1
  refine ⟨a, ⟨ha, fun m hm hnear => ?_⟩, hparent⟩
  exact h.2 (m + 1) (by omega) (mem_generation_succ_iff.mpr ⟨a, hnear, hparent⟩)

/-- Towards a term at distance `n` there is a declared term at every smaller distance. -/
theorem IsAtDistance.exists_declared (h : g.IsAtDistance key n a) :
    ∃ keys : List Key, keys.length = n ∧ keys.Nodup ∧
      ∀ k ∈ keys, g.declares k = true ∧ ∃ m < n, g.IsAtDistance key m k := by
  induction n generalizing a with
  | zero => exact ⟨[], rfl, List.nodup_nil, by simp⟩
  | succ n ih =>
      obtain ⟨b, hb, hparent⟩ := h.exists_child
      obtain ⟨keys, hlength, hnodup, hkeys⟩ := ih hb
      refine ⟨b :: keys, by simp [hlength], List.nodup_cons.mpr ⟨?_, hnodup⟩, ?_⟩
      · intro hmem
        obtain ⟨-, m, hm, hnear⟩ := hkeys b hmem
        exact absurd (hnear.unique hb) (by omega)
      · intro k hk
        rcases List.mem_cons.mp hk with rfl | hk
        · exact ⟨declares_of_inherits hparent, n, by omega, hb⟩
        · obtain ⟨hdeclared, m, hm, hnear⟩ := hkeys k hk
          exact ⟨hdeclared, m, by omega, hnear⟩

theorem IsAtDistance.le_size (h : g.IsAtDistance key n a) : n ≤ g.size := by
  obtain ⟨keys, hlength, hnodup, hkeys⟩ := h.exists_declared
  exact hlength ▸ length_le_size hnodup fun k hk => (hkeys k hk).1

theorem mem_unseen_iff {seen level : List Key} :
    a ∈ unseen seen level ↔ a ∈ level ∧ a ∉ seen := by
  induction level generalizing seen with
  | nil => simp [unseen]
  | cons k level ih =>
      rw [unseen]
      split
      · rename_i hk
        rw [ih]
        constructor
        · rintro ⟨ha, hseen⟩
          exact ⟨List.mem_cons_of_mem k ha, hseen⟩
        · rintro ⟨ha, hseen⟩
          rcases List.mem_cons.mp ha with rfl | ha
          · exact absurd hk hseen
          · exact ⟨ha, hseen⟩
      · rename_i hk
        rw [List.mem_cons, ih]
        by_cases hak : a = k
        · simp [hak, hk]
        · simp [hak]

theorem nodup_unseen (seen level : List Key) : (unseen seen level).Nodup := by
  induction level generalizing seen with
  | nil => exact List.nodup_nil
  | cons k level ih =>
      rw [unseen]
      split
      · exact ih seen
      · refine List.nodup_cons.mpr ⟨?_, ih (k :: seen)⟩
        simp [mem_unseen_iff]

theorem ancestorLevels_succ (g : Graph) (steps : Nat) (seen level : List Key) :
    g.ancestorLevels (steps + 1) seen level =
      if unseen seen level = [] then []
      else unseen seen level ::
        g.ancestorLevels steps (seen ++ unseen seen level)
          ((unseen seen level).flatMap g.parents) := by
  rw [ancestorLevels]
  cases unseen seen level with
  | nil => rfl
  | cons k rest => rfl

/-- After `n` levels, `seen` holds all terms that are nearer, and `level` the ones to look at. -/
structure Frontier (g : Graph) (key : Key) (n : Nat) (seen level : List Key) : Prop where
  mem_seen_iff : ∀ a, a ∈ seen ↔ ∃ m < n, a ∈ g.generation key m
  reached : ∀ a ∈ level, a ∈ g.generation key n
  complete : ∀ a, g.IsAtDistance key n a → a ∈ level

theorem frontier_one (g : Graph) (key : Key) : g.Frontier key 1 [key] (g.parents key) where
  mem_seen_iff := by simp [generation]
  reached := by simp [generation]
  complete := fun a ha => by simpa [generation] using ha.1

namespace Frontier

variable {seen level : List Key}

theorem mem_unseen_iff_isAtDistance (h : g.Frontier key n seen level) :
    a ∈ unseen seen level ↔ g.IsAtDistance key n a := by
  rw [mem_unseen_iff, h.mem_seen_iff]
  constructor
  · rintro ⟨hlevel, hseen⟩
    exact ⟨h.reached a hlevel, fun m hm hnear => hseen ⟨m, hm, hnear⟩⟩
  · intro ha
    exact ⟨h.complete a ha, fun ⟨m, hm, hnear⟩ => ha.2 m hm hnear⟩

theorem next (h : g.Frontier key n seen level) :
    g.Frontier key (n + 1) (seen ++ unseen seen level)
      ((unseen seen level).flatMap g.parents) where
  mem_seen_iff := by
    intro a
    rw [List.mem_append, h.mem_seen_iff, h.mem_unseen_iff_isAtDistance]
    constructor
    · rintro (⟨m, hm, ha⟩ | ha)
      · exact ⟨m, by omega, ha⟩
      · exact ⟨n, by omega, ha.1⟩
    · rintro ⟨m, hm, ha⟩
      obtain ⟨k, hk, hnear⟩ := exists_isAtDistance_of_mem_generation ha
      rcases Nat.lt_or_ge k n with hkn | hkn
      · exact Or.inl ⟨k, hkn, hnear.1⟩
      · obtain rfl : k = n := by omega
        exact Or.inr hnear
  reached := by
    intro b hb
    obtain ⟨a, ha, hparent⟩ := List.mem_flatMap.mp hb
    have hnear := h.mem_unseen_iff_isAtDistance.mp ha
    exact mem_generation_succ_iff.mpr ⟨a, hnear.1, hparent⟩
  complete := by
    intro b hb
    obtain ⟨a, ha, hparent⟩ := hb.exists_child
    exact List.mem_flatMap.mpr ⟨a, h.mem_unseen_iff_isAtDistance.mpr ha, hparent⟩

theorem not_isAtDistance_of_unseen_eq_nil (h : g.Frontier key n seen level)
    (hnil : unseen seen level = []) (hm : n ≤ m) : ¬ g.IsAtDistance key m a := by
  induction hm generalizing a with
  | refl =>
      intro ha
      have hmem := h.mem_unseen_iff_isAtDistance.mpr ha
      simp [hnil] at hmem
  | step _ ih =>
      intro ha
      obtain ⟨b, hb, -⟩ := ha.exists_child
      exact ih hb

/-- The levels from a frontier on hold all terms that are at least as far. -/
theorem mem_ancestorLevels_iff {steps : Nat} (h : g.Frontier key n seen level)
    (hsteps : g.size < steps + n) :
    a ∈ (g.ancestorLevels steps seen level).flatten ↔ ∃ m ≥ n, g.IsAtDistance key m a := by
  induction steps generalizing n seen level with
  | zero =>
      simp only [ancestorLevels, List.flatten_nil, List.not_mem_nil, false_iff]
      rintro ⟨m, hm, ha⟩
      have hle := ha.le_size
      omega
  | succ steps ih =>
      rw [ancestorLevels_succ]
      split
      · rename_i hnil
        simp only [List.flatten_nil, List.not_mem_nil, false_iff]
        rintro ⟨m, hm, ha⟩
        exact h.not_isAtDistance_of_unseen_eq_nil hnil hm ha
      · rw [List.flatten_cons, List.mem_append, h.mem_unseen_iff_isAtDistance,
          ih h.next (by omega)]
        constructor
        · rintro (ha | ⟨m, hm, ha⟩)
          · exact ⟨n, le_refl n, ha⟩
          · exact ⟨m, by omega, ha⟩
        · rintro ⟨m, hm, ha⟩
          rcases Nat.eq_or_lt_of_le hm with rfl | hm
          · exact Or.inl ha
          · exact Or.inr ⟨m, hm, ha⟩

theorem pairwise_ancestorLevels {steps : Nat} (h : g.Frontier key n seen level)
    (hsteps : g.size < steps + n) :
    (g.ancestorLevels steps seen level).flatten.Pairwise
      fun a b => a ≠ b ∧ g.IsAsNear key a b := by
  induction steps generalizing n seen level with
  | zero => exact List.Pairwise.nil
  | succ steps ih =>
      rw [ancestorLevels_succ]
      split
      · exact List.Pairwise.nil
      · rw [List.flatten_cons]
        refine List.pairwise_append.mpr ⟨?_, ih h.next (by omega), ?_⟩
        · refine (nodup_unseen seen level).imp_of_mem fun {a b} ha hb hne => ⟨hne, n, n, ?_⟩
          exact ⟨le_refl n, h.mem_unseen_iff_isAtDistance.mp ha,
            h.mem_unseen_iff_isAtDistance.mp hb⟩
        -- the distances within this level and beyond it tell the two terms apart
        · intro a ha b hb
          obtain ⟨m, hm, hfar⟩ := (h.next.mem_ancestorLevels_iff (by omega)).mp hb
          have hnear := h.mem_unseen_iff_isAtDistance.mp ha
          refine ⟨?_, n, m, by omega, hnear, hfar⟩
          rintro rfl
          have heq := hnear.unique hfar
          omega

end Frontier

theorem mem_ancestors_iff_exists_isAtDistance :
    a ∈ g.ancestors key ↔ ∃ m ≥ 1, g.IsAtDistance key m a :=
  (frontier_one g key).mem_ancestorLevels_iff (by unfold stepBound; omega)

theorem pairwise_ancestors (g : Graph) (key : Key) :
    (g.ancestors key).Pairwise fun a b => a ≠ b ∧ g.IsAsNear key a b :=
  (frontier_one g key).pairwise_ancestorLevels (by unfold stepBound; omega)

theorem mem_ancestors_iff :
    a ∈ g.ancestors key ↔ a ≠ key ∧ Relation.TransGen g.Inherits key a := by
  rw [mem_ancestors_iff_exists_isAtDistance]
  constructor
  · rintro ⟨n, hn, ha⟩
    have hne : a ≠ key := by
      rintro rfl
      exact ha.2 0 (by omega) (List.mem_singleton.mpr rfl)
    have hreach := reflTransGen_iff_exists_isAtDistance.mpr ⟨n, ha⟩
    rcases Relation.reflTransGen_iff_eq_or_transGen.mp hreach with heq | htrans
    · exact absurd heq hne
    · exact ⟨hne, htrans⟩
  · rintro ⟨hne, htrans⟩
    obtain ⟨n, hn⟩ := reflTransGen_iff_exists_isAtDistance.mp htrans.to_reflTransGen
    refine ⟨n, Nat.one_le_iff_ne_zero.mpr ?_, hn⟩
    rintro rfl
    exact hne (List.mem_singleton.mp hn.1)

theorem listsAncestors_ancestors (h : ¬ g.ReachesCycle key) :
    g.ListsAncestors key (g.ancestors key) where
  nodup := (pairwise_ancestors g key).imp fun h => h.1
  mem_iff := by
    intro a
    rw [mem_ancestors_iff]
    refine and_iff_right_of_imp fun htrans => ?_
    rintro rfl
    exact h ⟨a, Relation.ReflTransGen.refl, htrans⟩
  nearest := (pairwise_ancestors g key).imp fun h => h.2

theorem eq_or_mem_ancestors_iff :
    a = key ∨ a ∈ g.ancestors key ↔ Relation.ReflTransGen g.Inherits key a := by
  rw [mem_ancestors_iff, Relation.reflTransGen_iff_eq_or_transGen]
  constructor
  · rintro (h | ⟨-, h⟩)
    · exact Or.inl h
    · exact Or.inr h
  · rintro (h | h)
    · exact Or.inl h
    · exact (em (a = key)).imp_right fun hne => ⟨hne, h⟩

end Glossary.Graph
