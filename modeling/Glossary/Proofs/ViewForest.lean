import Glossary.Proofs.ViewAssembly

/-!
A view is assembled as a forest, written down node by node: a node is a thing that is had, with its
ancestors beside it, and the nodes below it are what these must have. Whatever hangs from a node is
found by its alias, wherever it has been written down.
-/

namespace Glossary

/-- The statement that a join follows, and how it joins. -/
def Join.step (j : Join) : (Key × Key × Relation) × JoinKind :=
  (j.edge, j.kind)

/-- The joins that hang from an alias, in order. -/
def joinsFrom (aliasName : String) (js : List Join) : List Join :=
  js.filter fun j => j.parentAlias == aliasName

section JoinsFrom

variable {p : String} {js js' : List Join}

theorem joinsFrom_append : joinsFrom p (js ++ js') = joinsFrom p js ++ joinsFrom p js' :=
  List.filter_append _ _

theorem joinsFrom_eq_nil (h : ∀ j ∈ js, j.parentAlias ≠ p) : joinsFrom p js = [] := by
  refine List.filter_eq_nil_iff.mpr fun j hj => ?_
  simpa using h j hj

theorem joinsFrom_eq_self (h : ∀ j ∈ js, j.parentAlias = p) : joinsFrom p js = js := by
  refine List.filter_eq_self.mpr fun j hj => ?_
  simpa using h j hj

end JoinsFrom

/-- The statement that a hop follows, and how its target is joined. -/
def Hop.step (hop : Hop) : (Key × Key × Relation) × JoinKind :=
  ((hop.parent, hop.target, hop.relation), if hop.isOptional then .left else .inner)

namespace Graph

variable {g : Graph} {o : ResolutionOptions} {key : Key} {n : Nat} {hop : Hop} {hops : List Hop}
  {path : List Key} {tables as : List Attachment} {a t : Attachment}

theorem TablesJoined.map_alias (h : g.TablesJoined o n hops as) :
    (as.map fun a => a.join.aliasName) = (List.range' (n + 1) as.length).map aliasAt := by
  induction h with
  | nil => rfl
  | cons _ _ ih =>
      rw [List.map_cons, ih, List.length_cons, List.range'_succ, List.map_cons]
      rfl

theorem TablesJoined.alias_nodup (h : g.TablesJoined o n hops as) :
    (as.map fun a => a.join.aliasName).Nodup := by
  rw [h.map_alias]
  exact List.Nodup.map (fun _ _ => aliasAt_inj.mp) List.nodup_range'

theorem TablesJoined.exists_alias (h : g.TablesJoined o n hops as) (ha : a ∈ as) :
    ∃ m, n < m ∧ m ≤ n + as.length ∧ a.join.aliasName = aliasAt m := by
  have hmem : a.join.aliasName ∈ as.map fun a => a.join.aliasName := List.mem_map_of_mem ha
  rw [h.map_alias] at hmem
  obtain ⟨m, hm, heq⟩ := List.mem_map.mp hmem
  rw [List.mem_range'_1] at hm
  exact ⟨m, by omega, by omega, heq.symm⟩

theorem Exposed.exists_alias (h : g.Exposed o path n hops as) (ha : a ∈ as) :
    ∃ m, n < m ∧ m ≤ n + as.length ∧ a.join.aliasName = aliasAt m := by
  induction h with
  | nil => cases ha
  | cons _ htables _ _ ihBelow ihAfter =>
      simp only [List.length_append]
      rcases List.mem_append.mp ha with ha | ha
      · rcases List.mem_append.mp ha with ha | ha
        · obtain ⟨m, hlt, hle, heq⟩ := htables.exists_alias ha
          exact ⟨m, by omega, by omega, heq⟩
        · obtain ⟨m, hlt, hle, heq⟩ := ihBelow ha
          exact ⟨m, by omega, by omega, heq⟩
      · obtain ⟨m, hlt, hle, heq⟩ := ihAfter ha
        exact ⟨m, by omega, by omega, heq⟩

/-- The tables that are joined on arrival: first the target, then, hanging from it, its
ancestors. -/
structure Arrives (g : Graph) (n : Nat) (hop : Hop) (first : Attachment)
    (ancestors : List Attachment) : Prop where
  alias_eq : first.join.aliasName = aliasAt (n + 1)
  parentAlias_eq : first.join.parentAlias = hop.parentAlias
  step_eq : first.join.step = hop.step
  acyclic : ¬ g.ReachesCycle hop.target
  targets_eq : (ancestors.map fun a => a.join.target) = g.ancestors hop.target
  hang : ∀ a ∈ ancestors, a.join.parentAlias = aliasAt (n + 1) ∧ a.join.relation = .inherits

theorem TablesJoined.exists_arrives (h : g.TablesJoined o n (g.arrivalHops o n hop) tables) :
    ∃ first ancestors, tables = first :: ancestors ∧ g.Arrives n hop first ancestors := by
  cases h with
  | @cons _ _ _ table ancestors htable hancestors =>
      refine ⟨_, ancestors, rfl, rfl, rfl, rfl, (isTable_of_table_eq_ok htable).acyclic, ?_, ?_⟩
      · rw [hancestors.map_target]
        simp [ancestorHop, Function.comp_def]
      · intro a ha
        obtain ⟨m, next, table', hnext, -, rfl⟩ := hancestors.exists_table ha
        obtain ⟨ancestor, -, rfl⟩ := List.mem_map.mp hnext
        exact ⟨rfl, rfl⟩

namespace Arrives

variable {first : Attachment} {ancestors : List Attachment}

theorem target_eq (h : g.Arrives n hop first ancestors) : first.join.target = hop.target :=
  congrArg (fun s => s.1.2.1) h.step_eq

theorem relation_eq (h : g.Arrives n hop first ancestors) :
    first.join.relation = hop.relation :=
  congrArg (fun s => s.1.2.2) h.step_eq

theorem kind_eq (h : g.Arrives n hop first ancestors) :
    first.join.kind = if hop.isOptional then .left else .inner :=
  congrArg Prod.snd h.step_eq

end Arrives

theorem relation_of_mem_requirements {l : Link}
    (h : l ∈ (g.requirements key).filter fun l => g.isEntity l.target) :
    l.relation = .requires := by
  simpa using List.of_mem_filter (List.mem_of_mem_filter h)

theorem exists_of_mem_onwardHops {next : Hop} (h : next ∈ g.onwardHops o hop tables) :
    ∃ t ∈ tables, next.parentAlias = t.join.aliasName ∧ next.relation = .requires := by
  obtain ⟨t, ht, hnext⟩ := List.mem_flatMap.mp h
  obtain ⟨l, hl, rfl⟩ := List.mem_map.mp hnext
  exact ⟨t, ht, rfl, relation_of_mem_requirements hl⟩

theorem filter_onwardHops (hnodup : (tables.map fun a => a.join.aliasName).Nodup)
    (ht : t ∈ tables) :
    ((g.onwardHops o hop tables).filter fun next => next.parentAlias == t.join.aliasName) =
      g.furtherHops o hop.isOptional t.standing := by
  have hparent : ∀ a : Attachment, ∀ next ∈ g.furtherHops o hop.isOptional a.standing,
      next.parentAlias = a.join.aliasName := by
    intro a next hnext
    obtain ⟨l, -, rfl⟩ := List.mem_map.mp hnext
    rfl
  induction tables with
  | nil => cases ht
  | cons a tables ih =>
      obtain ⟨hfresh, hnodup⟩ := List.nodup_cons.mp hnodup
      rw [onwardHops, List.flatMap_cons, List.filter_append]
      rcases List.mem_cons.mp ht with rfl | ht
      · rw [List.filter_eq_self.mpr, List.filter_eq_nil_iff.mpr, List.append_nil]
        · intro next hnext heq
          obtain ⟨a, ha, hparent', -⟩ := exists_of_mem_onwardHops hnext
          rw [hparent', beq_iff_eq] at heq
          exact hfresh (List.mem_map.mpr ⟨a, ha, heq⟩)
        · intro next hnext
          simpa using hparent t next hnext
      · rw [List.filter_eq_nil_iff.mpr, List.nil_append]
        · exact ih hnodup ht
        · intro next hnext heq
          rw [hparent a next hnext, beq_iff_eq] at heq
          exact hfresh (List.mem_map.mpr ⟨t, ht, heq.symm⟩)

theorem map_step_furtherHops {isOptional : Bool} :
    (g.furtherHops o isOptional t.standing).map Hop.step =
      ((g.requirements t.join.target).filter fun l => g.isEntity l.target).map fun l =>
        ((t.join.target, l.target, .requires), if isOptional then .left else .inner) := by
  rw [furtherHops, List.map_map]
  refine List.map_congr_left fun l hl => ?_
  simp [Hop.step, referenceHop, Attachment.standing, relation_of_mem_requirements hl]

/-- What hangs from an alias that is not given out on the way is what the hops from there join. -/
theorem Exposed.map_step_joinsFrom {p : String} (h : g.Exposed o path n hops as)
    (hp : ∀ a ∈ as, a.join.aliasName ≠ p) :
    (joinsFrom p (as.map Attachment.join)).map Join.step =
      (hops.filter fun hop => hop.parentAlias == p).map Hop.step := by
  induction h with
  | nil => rfl
  | @cons path n hop rest tables below after _ htables _ _ ihBelow ihAfter =>
      simp only [List.mem_append, or_imp, forall_and] at hp
      obtain ⟨⟨hpTables, hpBelow⟩, hpAfter⟩ := hp
      -- ancestors hang from the target, and what lies below from these: all from new aliases
      obtain ⟨first, ancestors, rfl, harrives⟩ := htables.exists_arrives
      have hnone : joinsFrom p (ancestors.map Attachment.join) = [] := by
        refine joinsFrom_eq_nil fun j hj => ?_
        obtain ⟨a, ha, rfl⟩ := List.mem_map.mp hj
        rw [(harrives.hang a ha).1, ← harrives.alias_eq]
        exact hpTables first List.mem_cons_self
      have hbelow : (joinsFrom p (below.map Attachment.join)).map Join.step = [] := by
        rw [ihBelow hpBelow, List.filter_eq_nil_iff.mpr, List.map_nil]
        intro next hnext heq
        obtain ⟨a, ha, hparent', -⟩ := exists_of_mem_onwardHops hnext
        rw [hparent', beq_iff_eq] at heq
        exact hpTables a ha heq
      rw [List.map_append, List.map_append, joinsFrom_append, joinsFrom_append, List.map_append,
        List.map_append, hbelow, ihAfter hpAfter, List.append_nil, List.map_cons, joinsFrom,
        List.filter_cons, List.filter_cons, ← joinsFrom, hnone, harrives.parentAlias_eq]
      cases hop.parentAlias == p with
      | true => simp [harrives.step_eq]
      | false => simp

theorem Exposed.parentAlias_ne {m : Nat} (h : g.Exposed o path n hops as)
    (hm : m ≤ n ∨ n + as.length < m) (hhops : ∀ hop ∈ hops, hop.parentAlias ≠ aliasAt m)
    (ha : a ∈ as) : a.join.parentAlias ≠ aliasAt m := by
  intro heq
  have hp : ∀ b ∈ as, b.join.aliasName ≠ aliasAt m := by
    intro b hb
    obtain ⟨k, hlt, hle, hk⟩ := h.exists_alias hb
    rw [hk, Ne, aliasAt_inj]
    omega
  have hnil := h.map_step_joinsFrom hp
  rw [List.filter_eq_nil_iff.mpr (by simpa using hhops), List.map_nil, List.map_eq_nil_iff,
    joinsFrom, List.filter_eq_nil_iff] at hnil
  exact hnil a.join (List.mem_map_of_mem ha) (beq_iff_eq.mpr heq)

/-- All of the hops start from aliases that have been given out when `n` joins are made. -/
def StartWithin (n : Nat) (hops : List Hop) : Prop :=
  ∀ hop ∈ hops, ∃ m ≤ n, hop.parentAlias = aliasAt m

theorem StartWithin.ne {m : Nat} (h : StartWithin n hops) (hm : n < m) :
    ∀ hop ∈ hops, hop.parentAlias ≠ aliasAt m := by
  intro hop hhop
  obtain ⟨k, hk, heq⟩ := h hop hhop
  rw [heq, Ne, aliasAt_inj]
  omega

theorem TablesJoined.startWithin_onwardHops (h : g.TablesJoined o n hops tables) :
    StartWithin (n + tables.length) (g.onwardHops o hop tables) := by
  intro next hnext
  obtain ⟨t, ht, hparent, -⟩ := exists_of_mem_onwardHops hnext
  obtain ⟨m, -, hle, heq⟩ := h.exists_alias ht
  exact ⟨m, hle, hparent.trans heq⟩

/-- A node of the forest: a target with its ancestors, and what lies below them. -/
structure IsNode (g : Graph) (o : ResolutionOptions) (n : Nat) (hop : Hop)
    (tables below : List Attachment) : Prop where
  tables_of : g.TablesJoined o n (g.arrivalHops o n hop) tables
  below_of : ∃ path, g.Exposed o path (n + tables.length) (g.onwardHops o hop tables) below
  starts : ∃ m ≤ n, hop.parentAlias = aliasAt m

theorem IsNode.parentAlias_ne {below : List Attachment} (h : g.IsNode o n hop tables below)
    {m : Nat} (hm : n + 1 < m) (ha : a ∈ tables) : a.join.parentAlias ≠ aliasAt m := by
  obtain ⟨first, ancestors, rfl, harrives⟩ := h.tables_of.exists_arrives
  rcases List.mem_cons.mp ha with rfl | ha
  · obtain ⟨k, hk, heq⟩ := h.starts
    rw [harrives.parentAlias_eq, heq, Ne, aliasAt_inj]
    omega
  · rw [(harrives.hang a ha).1, Ne, aliasAt_inj]
    omega

theorem exists_of_append_eq_append_cons {α : Type} {xs ys before after : List α} {x : α}
    (h : xs ++ ys = before ++ x :: after) :
    (∃ mid, xs = before ++ x :: mid ∧ after = mid ++ ys) ∨
      ∃ mid, before = xs ++ mid ∧ ys = mid ++ x :: after := by
  rcases List.append_eq_append_iff.mp h with ⟨mid, hbefore, hys⟩ | ⟨mid, hxs, hcons⟩
  · exact Or.inr ⟨mid, hbefore, hys⟩
  · cases mid with
    | nil => exact Or.inr ⟨[], by simpa using hxs.symm, by simpa using hcons.symm⟩
    | cons y mid =>
        obtain ⟨rfl, rfl⟩ := List.cons.inj hcons
        exact Or.inl ⟨mid, hxs, rfl⟩

/-- The attachment `a` opens a node whose tables are joined after `lo` and up to `hi` other joins.
Nothing outside of the node hangs from its tables. -/
def OpensNode (g : Graph) (o : ResolutionOptions) (lo hi : Nat) (before : List Attachment)
    (a : Attachment) (after : List Attachment) : Prop :=
  ∃ m hop tables below rest, g.IsNode o m hop tables below ∧
    a :: after = tables ++ below ++ rest ∧ lo ≤ m ∧ m + tables.length ≤ hi ∧
    ∀ b ∈ before ++ rest, ∀ k, m < k → k ≤ m + tables.length → b.join.parentAlias ≠ aliasAt k

theorem OpensNode.extend {lo hi lo' hi' : Nat} {before after : List Attachment}
    (h : g.OpensNode o lo hi before a after) (hlo : lo' ≤ lo) (hhi : hi ≤ hi')
    (front back : List Attachment)
    (houtside : ∀ b ∈ front ++ back, ∀ k, lo < k → k ≤ hi → b.join.parentAlias ≠ aliasAt k) :
    g.OpensNode o lo' hi' (front ++ before) a (after ++ back) := by
  obtain ⟨m, hop, tables, below, rest, hnode, heq, hlo', hhi', hinside⟩ := h
  refine ⟨m, hop, tables, below, rest ++ back, hnode, ?_, by omega, by omega, ?_⟩
  · rw [← List.cons_append, heq, List.append_assoc]
  · intro b hb k hlt hle
    have hb : b ∈ front ++ back ∨ b ∈ before ++ rest := by
      simp only [List.mem_append] at hb ⊢
      tauto
    rcases hb with hb | hb
    · exact houtside b hb k (by omega) (by omega)
    · exact hinside b hb k hlt hle

/-- Every join that is not to an ancestor opens a node. -/
theorem Exposed.opensNode (h : g.Exposed o path n hops as) (hhops : StartWithin n hops)
    {before after : List Attachment} (hsplit : as = before ++ a :: after)
    (hrelation : a.join.relation ≠ .inherits) :
    g.OpensNode o n (n + as.length) before a after := by
  induction h generalizing before after with
  | nil => simp at hsplit
  | @cons path n hop others tables below rest _ htables hbelow hrest ihBelow ihAfter =>
      have hnode : g.IsNode o n hop tables below :=
        ⟨htables, ⟨_, hbelow⟩, hhops hop List.mem_cons_self⟩
      have hothers : StartWithin n others := fun next hnext =>
        hhops next (List.mem_cons_of_mem hop hnext)
      obtain ⟨first, ancestors, hcons, harrives⟩ := htables.exists_arrives
      have hpos : 1 ≤ tables.length := by simp [hcons]
      simp only [List.length_append, ← Nat.add_assoc]
      rcases exists_of_append_eq_append_cons hsplit with ⟨mid, hfront, rfl⟩ | ⟨mid, rfl, hback⟩
      · rcases exists_of_append_eq_append_cons hfront with ⟨arrived, htop, rfl⟩ | ⟨mid', rfl, hlow⟩
        -- only the first of the tables is not joined as an ancestor
        · cases before with
          | nil =>
              refine ⟨n, hop, tables, below, rest, hnode, by simp [htop], le_refl n, by omega, ?_⟩
              intro b hb k hlt hle
              exact hrest.parentAlias_ne (Or.inl (by omega)) (hothers.ne hlt) hb
          | cons b before =>
              obtain ⟨-, rfl⟩ := List.cons.inj (hcons.symm.trans htop)
              exact absurd (harrives.hang a (by simp)).2 hrelation
        · refine (ihBelow htables.startWithin_onwardHops hlow).extend (by omega) (by omega)
            tables rest ?_
          intro b hb k hlt hle
          rcases List.mem_append.mp hb with hb | hb
          · exact hnode.parentAlias_ne (by omega) hb
          · exact hrest.parentAlias_ne (Or.inl hle) (hothers.ne (by omega)) hb
      · have hstart : StartWithin (n + tables.length + below.length) others := by
          intro next hnext
          obtain ⟨m, hm, heq⟩ := hothers next hnext
          exact ⟨m, by omega, heq⟩
        rw [← List.append_nil after]
        refine (ihAfter hstart hback).extend (by omega) (le_refl _) (tables ++ below) [] ?_
        intro b hb k hlt hle
        rw [List.append_nil] at hb
        rcases List.mem_append.mp hb with hb | hb
        · exact hnode.parentAlias_ne (by omega) hb
        · exact hbelow.parentAlias_ne (Or.inr hlt)
            (htables.startWithin_onwardHops.ne (by omega)) hb

theorem ParentsJoined.map_step {parents : List Key} (h : g.ParentsJoined o key n parents as) :
    (as.map Attachment.join).map Join.step =
      parents.map fun parent => ((key, parent, .inherits), .inner) := by
  induction h with
  | nil => rfl
  | cons _ _ ih =>
      rw [List.map_cons, List.map_cons, ih]
      rfl

theorem ParentsJoined.join_eq {parents : List Key} (h : g.ParentsJoined o key n parents as)
    (ha : a ∈ as) : a.join.parentAlias = baseAlias ∧ a.join.relation = .inherits := by
  induction h with
  | nil => cases ha
  | cons _ _ ih =>
      rcases List.mem_cons.mp ha with rfl | ha
      · exact ⟨rfl, rfl⟩
      · exact ih ha

namespace IsNode

variable {below : List Attachment}

theorem relation_of_mem_joinsFrom (h : g.IsNode o n hop tables below) (ht : t ∈ tables) {j : Join}
    (hj : j ∈ joinsFrom t.join.aliasName (tables.map Attachment.join)) :
    j.relation = .inherits := by
  obtain ⟨hj, hparent⟩ := List.mem_filter.mp hj
  obtain ⟨a, ha, rfl⟩ := List.mem_map.mp hj
  obtain ⟨m, hlt, -, halias⟩ := h.tables_of.exists_alias ht
  obtain ⟨k, hk, hstart⟩ := h.starts
  obtain ⟨first, ancestors, rfl, harrives⟩ := h.tables_of.exists_arrives
  rcases List.mem_cons.mp ha with rfl | ha
  · rw [beq_iff_eq, harrives.parentAlias_eq, hstart, halias, aliasAt_inj] at hparent
    omega
  · exact (harrives.hang a ha).2

/-- Below a node hang, from each of its tables, the things that its term must have. -/
theorem map_step_joinsFrom_below (h : g.IsNode o n hop tables below) (ht : t ∈ tables) :
    (joinsFrom t.join.aliasName (below.map Attachment.join)).map Join.step =
      ((g.requirements t.join.target).filter fun l => g.isEntity l.target).map fun l =>
        ((t.join.target, l.target, .requires), if hop.isOptional then .left else .inner) := by
  obtain ⟨path, hbelow⟩ := h.below_of
  have hfresh : ∀ a ∈ below, a.join.aliasName ≠ t.join.aliasName := by
    intro a ha
    obtain ⟨m, -, hle, hm⟩ := h.tables_of.exists_alias ht
    obtain ⟨k, hlt, -, hk⟩ := hbelow.exists_alias ha
    rw [hm, hk, Ne, aliasAt_inj]
    omega
  rw [hbelow.map_step_joinsFrom hfresh, filter_onwardHops h.tables_of.alias_nodup ht,
    map_step_furtherHops]

theorem relation_of_mem_joinsFrom_below (h : g.IsNode o n hop tables below) (ht : t ∈ tables)
    {j : Join} (hj : j ∈ joinsFrom t.join.aliasName (below.map Attachment.join)) :
    j.relation = .requires := by
  have hstep := List.mem_map_of_mem (f := Join.step) hj
  rw [h.map_step_joinsFrom_below ht] at hstep
  obtain ⟨l, -, heq⟩ := List.mem_map.mp hstep
  exact (congrArg (fun s => s.1.2.2) heq).symm

theorem joinsFrom_eq (h : g.IsNode o n hop tables below) (ht : t ∈ tables)
    {before rest : List Attachment} (houtside : ∀ b ∈ before ++ rest, ∀ k, n < k →
      k ≤ n + tables.length → b.join.parentAlias ≠ aliasAt k) :
    joinsFrom t.join.aliasName ((before ++ (tables ++ below ++ rest)).map Attachment.join) =
      joinsFrom t.join.aliasName (tables.map Attachment.join) ++
        joinsFrom t.join.aliasName (below.map Attachment.join) := by
  have hnone : ∀ bs ⊆ before ++ rest,
      joinsFrom t.join.aliasName (bs.map Attachment.join) = [] := by
    intro bs hsub
    obtain ⟨k, hlt, hle, hk⟩ := h.tables_of.exists_alias ht
    refine joinsFrom_eq_nil fun j hj => ?_
    obtain ⟨b, hb, rfl⟩ := List.mem_map.mp hj
    rw [hk]
    exact houtside b (hsub hb) k hlt hle
  simp only [List.map_append, joinsFrom_append]
  rw [hnone before (List.subset_append_left _ _), hnone rest (List.subset_append_right _ _),
    List.nil_append, List.append_nil]

theorem joinsFrom_first {first : Attachment} {ancestors : List Attachment}
    (h : g.IsNode o n hop (first :: ancestors) below) (harrives : g.Arrives n hop first ancestors) :
    joinsFrom first.join.aliasName ((first :: ancestors).map Attachment.join) =
      ancestors.map Attachment.join := by
  have hself : first.join.parentAlias ≠ first.join.aliasName := by
    obtain ⟨k, hk, hstart⟩ := h.starts
    rw [harrives.parentAlias_eq, hstart, harrives.alias_eq, Ne, aliasAt_inj]
    omega
  rw [List.map_cons, joinsFrom, List.filter_cons_of_neg (by simpa using hself)]
  refine joinsFrom_eq_self fun j hj => ?_
  obtain ⟨b, hb, rfl⟩ := List.mem_map.mp hj
  exact (harrives.hang b hb).1.trans harrives.alias_eq.symm

end IsNode

end Graph

end Glossary
