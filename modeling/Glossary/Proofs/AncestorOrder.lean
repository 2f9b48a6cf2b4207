import Glossary.Proofs.Ancestors
import Glossary.Proofs.EnumeratedStatements

/-!
The order of ancestors. Of two terms that are equally far, the one comes first that is declared at an
earlier place: by the term that comes first among those before it, and by this one in the order of
its statements.
-/

namespace Glossary.Graph

/-- The place of the first term of the list that has `a` as a parent. -/
def declaredAt (g : Graph) (order : List Key) (a : Key) : Nat :=
  order.findIdx fun k => a ∈ g.parents k

/-- The term `a` is declared at an earlier place than `b`, or earlier at the same place. -/
def IsDeclaredBefore (g : Graph) (order : List Key) (a b : Key) : Prop :=
  g.declaredAt order a < g.declaredAt order b ∨
    g.declaredAt order a = g.declaredAt order b ∧
      ∃ k, order[g.declaredAt order a]? = some k ∧ (g.parents k).idxOf a < (g.parents k).idxOf b

/-- The term `a` is nearer to `key` than `b`, or as near and declared before. -/
def Precedes (g : Graph) (key : Key) (order : List Key) (a b : Key) : Prop :=
  ∃ m n, g.IsAtDistance key m a ∧ g.IsAtDistance key n b ∧
    (m < n ∨ m = n ∧ g.IsDeclaredBefore order a b)

/-- The list holds exactly the terms that `key` inherits from, each once, the nearest first and those
that are equally far in the order of their declarations. -/
structure OrdersAncestors (g : Graph) (key : Key) (keys : List Key) : Prop where
  nodup : keys.Nodup
  mem_iff : ∀ a, a ∈ keys ↔ Relation.TransGen g.Inherits key a
  ordered : keys.Pairwise (g.Precedes key (key :: keys))

variable {g : Graph} {key k a b : Key} {n : Nat} {ks before after : List Key}

theorem declaredAt_cons_of_mem (h : a ∈ g.parents k) : g.declaredAt (k :: ks) a = 0 := by
  simp [declaredAt, List.findIdx_cons, h]

theorem declaredAt_cons_of_not_mem (h : a ∉ g.parents k) :
    g.declaredAt (k :: ks) a = g.declaredAt ks a + 1 := by
  simp [declaredAt, List.findIdx_cons, h]

theorem declaredAt_append_of_mem (h : a ∈ ks.flatMap g.parents) :
    g.declaredAt (ks ++ after) a = g.declaredAt ks a := by
  induction ks with
  | nil => simp at h
  | cons k ks ih =>
      by_cases hk : a ∈ g.parents k
      · rw [List.cons_append, declaredAt_cons_of_mem hk, declaredAt_cons_of_mem hk]
      · have hrest : a ∈ ks.flatMap g.parents := by simpa [hk] using h
        rw [List.cons_append, declaredAt_cons_of_not_mem hk, declaredAt_cons_of_not_mem hk,
          ih hrest]

theorem declaredAt_lt_length (h : a ∈ ks.flatMap g.parents) : g.declaredAt ks a < ks.length := by
  obtain ⟨k, hk, ha⟩ := List.mem_flatMap.mp h
  exact List.findIdx_lt_length_of_exists ⟨k, hk, by simpa using ha⟩

theorem IsDeclaredBefore.cons (h : g.IsDeclaredBefore ks a b) (ha : a ∉ g.parents k)
    (hb : b ∉ g.parents k) : g.IsDeclaredBefore (k :: ks) a b := by
  rw [IsDeclaredBefore, declaredAt_cons_of_not_mem ha, declaredAt_cons_of_not_mem hb]
  rcases h with hlt | ⟨heq, first, hfirst, hlt⟩
  · exact Or.inl (Nat.succ_lt_succ hlt)
  · exact Or.inr ⟨congrArg Nat.succ heq, first, by rwa [List.getElem?_cons_succ], hlt⟩

theorem IsDeclaredBefore.append_left (h : g.IsDeclaredBefore ks a b)
    (hbefore : ∀ k ∈ before, a ∉ g.parents k ∧ b ∉ g.parents k) :
    g.IsDeclaredBefore (before ++ ks) a b := by
  induction before with
  | nil => exact h
  | cons k before ih =>
      obtain ⟨⟨ha, hb⟩, hrest⟩ := List.forall_mem_cons.mp hbefore
      exact (ih hrest).cons ha hb

theorem IsDeclaredBefore.append_right (h : g.IsDeclaredBefore ks a b)
    (ha : a ∈ ks.flatMap g.parents) (hb : b ∈ ks.flatMap g.parents) (after : List Key) :
    g.IsDeclaredBefore (ks ++ after) a b := by
  rw [IsDeclaredBefore, declaredAt_append_of_mem ha, declaredAt_append_of_mem hb,
    List.getElem?_append_left (declaredAt_lt_length ha)]
  exact h

/-- Going through the parents of one term after the other finds them in the order of their
declarations. -/
theorem isDeclaredBefore_of_idxOf_lt (ha : a ∈ ks.flatMap g.parents)
    (h : (ks.flatMap g.parents).idxOf a < (ks.flatMap g.parents).idxOf b) :
    g.IsDeclaredBefore ks a b := by
  induction ks with
  | nil => simp at ha
  | cons k ks ih =>
      rw [List.flatMap_cons] at h
      by_cases hka : a ∈ g.parents k
      · rw [IsDeclaredBefore, declaredAt_cons_of_mem hka]
        by_cases hkb : b ∈ g.parents k
        · rw [declaredAt_cons_of_mem hkb]
          rw [List.idxOf_append_of_mem hka, List.idxOf_append_of_mem hkb] at h
          exact Or.inr ⟨rfl, k, rfl, h⟩
        · rw [declaredAt_cons_of_not_mem hkb]
          exact Or.inl (Nat.succ_pos _)
      · have hrest : a ∈ ks.flatMap g.parents := by simpa [hka] using ha
        rw [List.idxOf_append_of_notMem hka] at h
        have hkb : b ∉ g.parents k := by
          intro hkb
          have hlt := List.idxOf_lt_length_of_mem hkb
          rw [List.idxOf_append_of_mem hkb] at h
          omega
        rw [List.idxOf_append_of_notMem hkb] at h
        exact (ih hrest (by omega)).cons hka hkb

theorem unseen_eq_eraseDups (seen level : List Key) :
    unseen seen level = (level.filter fun k => k ∉ seen).eraseDups := by
  induction level generalizing seen with
  | nil => rfl
  | cons k level ih =>
      rw [unseen]
      split
      · rename_i hk
        rw [ih, List.filter_cons_of_neg (by simpa using hk)]
      · rename_i hk
        rw [ih, List.filter_cons_of_pos (by simpa using hk), List.eraseDups_cons,
          List.filter_filter]
        congr 3
        funext k'
        simp [beq_eq_decide]

namespace Frontier

variable {seen level last : List Key}

/-- What the levels from a frontier on list comes in order. The terms that were seen are the ones of
the last level and, before these, terms that declare none which is still to be listed. -/
theorem ordered_ancestorLevels {steps : Nat} (h : g.Frontier key n seen level)
    (hsteps : g.size < steps + n) (hseen : seen = before ++ last)
    (hlevel : level = last.flatMap g.parents)
    (hbefore : ∀ k ∈ before, ∃ m, m + 1 < n ∧ k ∈ g.generation key m) :
    (g.ancestorLevels steps seen level).flatten.Pairwise
      (g.Precedes key (seen ++ (g.ancestorLevels steps seen level).flatten)) := by
  induction steps generalizing n seen level before last with
  | zero => exact List.Pairwise.nil
  | succ steps ih =>
      rw [ancestorLevels_succ]
      split
      · exact List.Pairwise.nil
      · rw [List.flatten_cons]
        refine List.pairwise_append.mpr ⟨?_, ?_, ?_⟩
        · have hpairwise : (unseen seen level).Pairwise fun a b =>
              level.idxOf a < level.idxOf b := by
            rw [unseen_eq_eraseDups]
            exact pairwise_idxOf_eraseDups level _
          refine hpairwise.imp_of_mem fun {a b} ha hb hlt => ?_
          have hnear := h.mem_unseen_iff_isAtDistance.mp ha
          have hnear' := h.mem_unseen_iff_isAtDistance.mp hb
          refine ⟨n, n, hnear, hnear', Or.inr ⟨rfl, ?_⟩⟩
          have ha' := (mem_unseen_iff.mp ha).1
          have hb' := (mem_unseen_iff.mp hb).1
          subst hlevel hseen
          rw [List.append_assoc]
          refine ((isDeclaredBefore_of_idxOf_lt ha' hlt).append_right ha' hb' _).append_left ?_
          -- a parent of a term that was seen before the last level is nearer
          intro k hk
          obtain ⟨m, hm, hkm⟩ := hbefore k hk
          exact ⟨fun hparent => hnear.2 (m + 1) hm (mem_generation_succ_iff.mpr ⟨k, hkm, hparent⟩),
            fun hparent => hnear'.2 (m + 1) hm (mem_generation_succ_iff.mpr ⟨k, hkm, hparent⟩)⟩
        · rw [← List.append_assoc]
          refine ih h.next (by omega) rfl rfl fun k hk => ?_
          obtain ⟨m, hm, hkm⟩ := (h.mem_seen_iff k).mp hk
          exact ⟨m, by omega, hkm⟩
        · intro a ha b hb
          obtain ⟨m, hm, hfar⟩ := (h.next.mem_ancestorLevels_iff (by omega)).mp hb
          exact ⟨n, m, h.mem_unseen_iff_isAtDistance.mp ha, hfar, Or.inl (by omega)⟩

end Frontier

theorem ordersAncestors_ancestors (h : ¬ g.ReachesCycle key) :
    g.OrdersAncestors key (g.ancestors key) where
  nodup := (listsAncestors_ancestors h).nodup
  mem_iff := (listsAncestors_ancestors h).mem_iff
  ordered := by
    have hseen : [key] = [] ++ [key] := rfl
    refine (frontier_one g key).ordered_ancestorLevels ?_ hseen ?_ ?_
    · unfold stepBound
      omega
    · simp
    · simp

theorem IsDeclaredBefore.asymm (h : g.IsDeclaredBefore ks a b) : ¬ g.IsDeclaredBefore ks b a := by
  rintro (hlt' | ⟨heq', k', hk', hlt'⟩)
  · rcases h with hlt | ⟨heq, -⟩
    · omega
    · omega
  · rcases h with hlt | ⟨-, k, hk, hlt⟩
    · omega
    · rw [heq'] at hk'
      obtain rfl := Option.some.inj (hk.symm.trans hk')
      omega

theorem Precedes.asymm (h : g.Precedes key ks a b) : ¬ g.Precedes key ks b a := by
  rintro ⟨n', m', hn', hm', hle'⟩
  obtain ⟨m, n, hm, hn, hle⟩ := h
  obtain rfl := hm.unique hm'
  obtain rfl := hn.unique hn'
  rcases hle with hlt | ⟨heq, hdeclared⟩
  · omega
  · rcases hle' with hlt | ⟨-, hdeclared'⟩
    · omega
    · exact hdeclared.asymm hdeclared'

namespace OrdersAncestors

variable {xs ys after' : List Key}

theorem mem_before_of_nearer (h : g.OrdersAncestors key (before ++ a :: after)) {m : Nat}
    (ha : g.IsAtDistance key n a) (hb : g.IsAtDistance key m b) (hnearer : m < n)
    (hmem : b ∈ before ++ a :: after) : b ∈ before := by
  refine (List.mem_append.mp hmem).resolve_right fun hmem => ?_
  rcases List.mem_cons.mp hmem with rfl | hmem
  · have heq := ha.unique hb
    omega
  · obtain ⟨n', m', ha', hb', hle⟩ :=
      List.rel_of_pairwise_cons (List.pairwise_append.mp h.ordered).2.1 hmem
    have hn := ha.unique ha'
    have hm := hb.unique hb'
    omega

/-- A listed term is declared by `key` or by a term that is listed before it. -/
theorem mem_flatMap_parents (h : g.OrdersAncestors key (before ++ a :: after))
    (hacyclic : ¬ g.ReachesCycle key) : a ∈ (key :: before).flatMap g.parents := by
  have hreach : Relation.TransGen g.Inherits key a := (h.mem_iff a).mp (by simp)
  obtain ⟨n, hn⟩ := reflTransGen_iff_exists_isAtDistance.mp hreach.to_reflTransGen
  cases n with
  | zero =>
      obtain rfl := List.mem_singleton.mp hn.1
      exact absurd ⟨a, Relation.ReflTransGen.refl, hreach⟩ hacyclic
  | succ n =>
      obtain ⟨c, hc, hparent⟩ := hn.exists_child
      refine List.mem_flatMap.mpr ⟨c, ?_, hparent⟩
      have hfrom := reflTransGen_iff_exists_isAtDistance.mpr ⟨n, hc⟩
      rcases Relation.reflTransGen_iff_eq_or_transGen.mp hfrom with rfl | hfrom
      · exact List.mem_cons_self
      · refine List.mem_cons_of_mem _ (h.mem_before_of_nearer hn hc (Nat.lt_succ_self n) ?_)
        exact (h.mem_iff c).mpr hfrom

theorem not_mem_of_append (h : g.OrdersAncestors key xs)
    (h' : g.OrdersAncestors key (before ++ b :: after)) (hmem : ∀ k ∈ xs, k ∈ before) : False := by
  have hb : b ∈ xs := (h.mem_iff b).mpr ((h'.mem_iff b).mp (by simp))
  exact (List.nodup_append.mp h'.nodup).2.2 b (hmem b hb) b List.mem_cons_self rfl

/-- Where two lists part, each puts its own term before that of the other; both are declared among
the terms that the lists share. -/
theorem precedes_of_ne (h : g.OrdersAncestors key (before ++ a :: after))
    (h' : g.OrdersAncestors key (before ++ b :: after')) (hacyclic : ¬ g.ReachesCycle key)
    (hne : a ≠ b) : g.Precedes key (key :: before) a b := by
  have hafter : b ∈ after := by
    have hmem : b ∈ before ++ a :: after := (h.mem_iff b).mpr ((h'.mem_iff b).mp (by simp))
    rcases List.mem_append.mp hmem with hbefore | hrest
    · exact absurd rfl ((List.nodup_append.mp h'.nodup).2.2 b hbefore b List.mem_cons_self)
    · exact (List.mem_cons.mp hrest).resolve_left hne.symm
  obtain ⟨m, n, hm, hn, hle⟩ :=
    List.rel_of_pairwise_cons (List.pairwise_append.mp h.ordered).2.1 hafter
  refine ⟨m, n, hm, hn, hle.imp_right fun ⟨heq, hdeclared⟩ => ⟨heq, ?_⟩⟩
  have ha := h.mem_flatMap_parents hacyclic
  have hb := h'.mem_flatMap_parents hacyclic
  rwa [IsDeclaredBefore, ← List.cons_append, declaredAt_append_of_mem ha,
    declaredAt_append_of_mem hb, List.getElem?_append_left (declaredAt_lt_length ha)] at hdeclared

/-- The order leaves no choice. -/
theorem unique (h : g.OrdersAncestors key xs) (h' : g.OrdersAncestors key ys)
    (hacyclic : ¬ g.ReachesCycle key) : xs = ys := by
  have hrest : ∀ xs' ys' before, g.OrdersAncestors key (before ++ xs') →
      g.OrdersAncestors key (before ++ ys') → xs' = ys' := by
    intro xs'
    induction xs' with
    | nil =>
        intro ys' before hx hy
        cases ys' with
        | nil => rfl
        | cons b ys' => exact (hx.not_mem_of_append hy (by simp)).elim
    | cons a xs' ih =>
        intro ys' before hx hy
        cases ys' with
        | nil => exact (hy.not_mem_of_append hx (by simp)).elim
        | cons b ys' =>
            have hab : a = b := by
              by_contra hne
              exact (hx.precedes_of_ne hy hacyclic hne).asymm
                (hy.precedes_of_ne hx hacyclic (Ne.symm hne))
            subst hab
            rw [ih ys' (before ++ [a]) (by simpa using hx) (by simpa using hy)]
  exact hrest xs ys [] h h'

end OrdersAncestors

end Glossary.Graph
