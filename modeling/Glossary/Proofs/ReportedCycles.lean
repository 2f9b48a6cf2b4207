import Mathlib.Data.List.Chain
import Glossary.Proofs.Isolation
import Glossary.Proofs.ViewTerms

/-!
Reported cycles are real. The path of an error is a walk along declared statements that comes back to
the term it starts from and to no other, and the requested term leads to every term on it.
-/

namespace Glossary

open Fallible

/-- The list ends with the key that it starts from, and no other key occurs twice. -/
def LeadsRound (keys : List Key) : Prop :=
  ∃ first between, keys = first :: (between ++ [first]) ∧ (first :: between).Nodup

theorem mem_round_iff {first : Key} {between : List Key} {key : Key} :
    key ∈ first :: (between ++ [first]) ↔ key ∈ first :: between := by
  simp only [List.mem_cons, List.mem_append, List.not_mem_nil, or_false]
  rw [← or_assoc, or_right_comm, or_self]

section Round

variable {keys : List Key} {r : Key → Key → Prop} {key : Key}

theorem LeadsRound.exists_next (h : LeadsRound keys) (hchain : keys.IsChain r) (hkey : key ∈ keys) :
    ∃ next, r key next := by
  obtain ⟨first, between, rfl, -⟩ := h
  obtain ⟨before, after, hsplit⟩ := List.append_of_mem (mem_round_iff.mp hkey)
  obtain ⟨next, rest, hrest⟩ : ∃ next rest, after ++ [first] = next :: rest :=
    List.exists_cons_of_ne_nil (by simp)
  rw [← List.cons_append, hsplit, List.append_assoc, List.cons_append, hrest] at hchain
  exact ⟨next, (List.isChain_cons_cons.mp hchain.right_of_append).1⟩

theorem LeadsRound.exists_previous (h : LeadsRound keys) (hchain : keys.IsChain r)
    (hkey : key ∈ keys) : ∃ previous, r previous key := by
  have hback : LeadsRound keys.reverse := by
    obtain ⟨first, between, rfl, hnodup⟩ := h
    refine ⟨first, between.reverse, by simp, ?_⟩
    simpa using hnodup
  exact hback.exists_next (List.isChain_reverse.mpr hchain) (List.mem_reverse.mpr hkey)

end Round

namespace Graph

/-- A statement of the term is about `other`. -/
def Mentions (g : Graph) (key other : Key) : Prop :=
  ∃ l ∈ g.links key, l.target = other

structure IsInheritanceCycle (g : Graph) (keys : List Key) : Prop where
  leadsRound : LeadsRound keys
  inherits : keys.IsChain g.Inherits

/-- Every term must have the next one, itself or through an ancestor; the first may instead have it
by a `has a` statement of its own. -/
structure IsCompositionCycle (g : Graph) (keys : List Key) : Prop where
  leadsRound : LeadsRound keys
  composes : ∃ first second rest, keys = first :: second :: rest ∧
    (g.Has first second ∨ g.MustHave first second) ∧ (second :: rest).IsChain g.MustHave

/-- The path prints terms that statements lead to from `key`. -/
structure Prints (g : Graph) (key : Key) (path : List String) (keys : List Key) : Prop where
  path_eq : path = g.labels keys
  reached : ∀ k ∈ keys, Relation.ReflTransGen g.Mentions key k

/-- A cycle that the error reports is one, and `key` leads to it. -/
def Witnesses (g : Graph) (key : Key) : ResolutionError → Prop
  | .cyclicInheritance _ path => ∃ keys, g.Prints key path keys ∧ g.IsInheritanceCycle keys
  | .cyclicComposition _ path => ∃ keys, g.Prints key path keys ∧ g.IsCompositionCycle keys
  | _ => True

variable {g : Graph} {options : ResolutionOptions} {o : Occasion} {key target a b : Key}
  {e : ResolutionError}

theorem Inherits.mentions (h : g.Inherits a b) : g.Mentions a b := by
  obtain ⟨l, hl, rfl⟩ := List.mem_map.mp h
  exact ⟨l, List.mem_of_mem_filter hl, rfl⟩

theorem mentions_of_mem_references {l : Link} (h : l ∈ g.references key) :
    g.Mentions key l.target :=
  ⟨l, List.mem_of_mem_filter h, rfl⟩

theorem reaches_of_inherits (h : Relation.ReflTransGen g.Inherits a b) :
    Relation.ReflTransGen g.Mentions a b :=
  Relation.ReflTransGen.mono (fun _ _ hparent => Inherits.mentions hparent) a b h

theorem Has.mentions (h : g.Has a b) : g.Mentions a b := by
  obtain ⟨l, hl, rfl, -⟩ := h
  exact mentions_of_mem_references hl

theorem MustHave.reaches (h : g.MustHave a b) : Relation.ReflTransGen g.Mentions a b := by
  obtain ⟨owner, hreach, l, hl, rfl, -⟩ := h
  exact (reaches_of_inherits hreach).tail (mentions_of_mem_references (List.mem_of_mem_filter hl))

theorem Prints.mono {path : List String} {keys : List Key} (h : g.Prints b path keys)
    (hreach : Relation.ReflTransGen g.Mentions a b) : g.Prints a path keys where
  path_eq := h.path_eq
  reached := fun k hk => hreach.trans (h.reached k hk)

/-- What is reported while a term is resolved holds for all terms that lead to it. -/
theorem Witnesses.mono (h : g.Witnesses b e) (hreach : Relation.ReflTransGen g.Mentions a b) :
    g.Witnesses a e := by
  cases e with
  | cyclicInheritance term path =>
      obtain ⟨keys, hprints, hcycle⟩ := h
      exact ⟨keys, hprints.mono hreach, hcycle⟩
  | cyclicComposition term path =>
      obtain ⟨keys, hprints, hcycle⟩ := h
      exact ⟨keys, hprints.mono hreach, hcycle⟩
  | ambiguousIdentifier term column kept dropped => trivial
  | unfinished term => trivial

theorem exists_cycleAt_eq {path : List Key} (h : key ∈ path) :
    ∃ before between, path = before ++ key :: between ∧
      cycleAt path key = key :: (between ++ [key]) := by
  induction path with
  | nil => cases h
  | cons k path ih =>
      by_cases hk : k = key
      · subst hk
        exact ⟨[], path, rfl, by simp [cycleAt]⟩
      · have hmem : key ∈ path := (List.mem_cons.mp h).resolve_left fun heq => hk heq.symm
        obtain ⟨before, between, hpath, hcycle⟩ := ih hmem
        refine ⟨k :: before, between, by rw [hpath, List.cons_append], ?_⟩
        rw [← hcycle]
        simp [cycleAt, hk]

/-- The terms `path` and then `key` stand in a row of `is a` statements, and `root` leads to all of
them. -/
structure Ascends (g : Graph) (root : Key) (path : List Key) (key : Key) : Prop where
  nodup : path.Nodup
  chain : (path ++ [key]).IsChain g.Inherits
  reached : ∀ k ∈ path ++ [key], Relation.ReflTransGen g.Mentions root k

theorem Ascends.nil (g : Graph) (root : Key) : g.Ascends root [] root where
  nodup := List.nodup_nil
  chain := List.IsChain.singleton root
  reached := by simp [Relation.ReflTransGen.refl]

theorem Ascends.append {root : Key} {path : List Key} {parent : Key}
    (h : g.Ascends root path key) (hfresh : key ∉ path) (hparent : g.Inherits key parent) :
    g.Ascends root (path ++ [key]) parent where
  nodup := nodup_append_singleton h.nodup hfresh
  chain := by
    refine List.isChain_append.mpr ⟨h.chain, List.IsChain.singleton parent, ?_⟩
    simpa using hparent
  reached := by
    refine List.forall_mem_append.mpr ⟨h.reached, List.forall_mem_singleton.mpr ?_⟩
    exact (h.reached key (by simp)).tail hparent.mentions

theorem Ascends.witnesses {root : Key} {path : List Key} (h : g.Ascends root path key)
    (hmem : key ∈ path) :
    g.Witnesses root (.cyclicInheritance (g.label root) (g.labels (cycleAt path key))) := by
  obtain ⟨before, between, hpath, hcycle⟩ := exists_cycleAt_eq hmem
  have hwalk : path ++ [key] = before ++ cycleAt path key := by
    rw [hcycle, hpath]
    simp
  refine ⟨cycleAt path key, ⟨rfl, fun k hk => h.reached k ?_⟩, ⟨key, between, hcycle, ?_⟩, ?_⟩
  · exact hwalk ▸ List.mem_append_right before hk
  · exact (List.nodup_append.mp (hpath ▸ h.nodup)).2.1
  · exact (hwalk ▸ h.chain).right_of_append

theorem walkParents_witnesses {root : Key} {steps : Nat} {path done : List Key}
    (h : g.walkParents root steps path done key = .error e) (hascends : g.Ascends root path key) :
    g.Witnesses root e := by
  induction steps generalizing path done key with
  | zero =>
      obtain rfl := Except.error.inj h
      trivial
  | succ steps ih =>
      rw [walkParents] at h
      split at h
      · rename_i hmem
        obtain rfl := Except.error.inj h
        exact hascends.witnesses hmem
      · rename_i hfresh
        split at h
        · cases h
        · rcases bind_eq_error_iff.mp h with h | ⟨after, -, h⟩
          · obtain ⟨parent, hparent, done', hfail⟩ := exists_of_foldlM_eq_error h
            exact ih hfail (hascends.append hfresh hparent)
          · cases h

theorem table_witnesses (hoptions : options.strict = false)
    (h : g.table options key = .error e) : g.Witnesses key e := by
  rcases bind_eq_error_iff.mp h with h | ⟨⟨⟩, hacyclic, -⟩
  · rcases bind_eq_error_iff.mp h with h | ⟨after, -, h⟩
    · exact walkParents_witnesses h (Ascends.nil g key)
    · cases h
  · exact absurd (table_eq_error hoptions h).1 (requireAcyclic_eq_ok_iff.mp hacyclic)

theorem IsJoinWalk.chain {targets : List Key} (h : g.IsJoinWalk key targets) :
    targets.IsChain g.MustHave := by
  cases targets with
  | nil => exact List.IsChain.nil
  | cons target rest => exact h.2

theorem IsJoinWalk.append {targets : List Key} {next : Key}
    (h : g.IsJoinWalk key (targets ++ [target])) (hnext : g.MustHave target next) :
    g.IsJoinWalk key (targets ++ [target] ++ [next]) := by
  have hchain : (targets ++ [target] ++ [next]).IsChain g.MustHave := by
    refine List.isChain_append.mpr ⟨h.chain, List.IsChain.singleton next, ?_⟩
    simpa using hnext
  cases targets with
  | nil => exact ⟨h.1, hchain⟩
  | cons first rest => exact ⟨h.1, hchain⟩

theorem IsJoinWalk.reached {targets : List Key} (h : g.IsJoinWalk key targets) :
    ∀ k ∈ key :: targets, Relation.ReflTransGen g.Mentions key k := by
  have hchain : (key :: targets).IsChain (Relation.ReflTransGen g.Mentions) := by
    cases targets with
    | nil => exact List.IsChain.singleton key
    | cons target rest =>
        refine List.isChain_cons_cons.mpr ⟨.single h.1.mentions, ?_⟩
        exact h.2.imp fun _ _ hrequired => hrequired.reaches
  refine List.forall_mem_cons.mpr ⟨.refl, fun k hk => ?_⟩
  exact List.rel_of_pairwise_cons hchain.pairwise hk

/-- A join walk that comes back to a term has come round a cycle from there. -/
theorem IsJoinWalk.witnesses {targets : List Key} (h : g.IsJoinWalk key (targets ++ [target]))
    (hnodup : (key :: targets).Nodup) (hmem : target ∈ key :: targets) (term : String) :
    g.Witnesses key (.cyclicComposition term (g.labels (cycleAt (key :: targets) target))) := by
  obtain ⟨before, between, hpath, hcycle⟩ := exists_cycleAt_eq hmem
  have hwalk : key :: (targets ++ [target]) = before ++ cycleAt (key :: targets) target := by
    rw [hcycle, ← List.cons_append, hpath]
    simp
  refine ⟨cycleAt (key :: targets) target, ⟨rfl, fun k hk => h.reached k ?_⟩,
    ⟨target, between, hcycle, ?_⟩, ?_⟩
  · exact hwalk ▸ List.mem_append_right before hk
  · exact (List.nodup_append.mp (hpath ▸ hnodup)).2.1
  -- the walk starts with what the term has; a cycle that starts later has no such step
  obtain ⟨second, rest, hrest⟩ : ∃ second rest, between ++ [target] = second :: rest :=
    List.exists_cons_of_ne_nil (by simp)
  rw [hcycle, hrest] at hwalk ⊢
  refine ⟨target, second, rest, rfl, ?_⟩
  cases before with
  | nil =>
      obtain ⟨rfl, htargets⟩ := List.cons.inj hwalk
      rw [htargets] at h
      exact ⟨Or.inl h.1, h.2⟩
  | cons first before =>
      obtain ⟨-, htargets⟩ := List.cons.inj hwalk
      have hchain := (htargets ▸ h.chain).right_of_append
      obtain ⟨hrequired, hchain⟩ := List.isChain_cons_cons.mp hchain
      exact ⟨Or.inr hrequired, hchain⟩

section Failure

variable {w : Key → Except ResolutionError ViewSchema} {v : ViewDraft}

theorem joinTables_witnesses (hoptions : options.strict = false) (ho : o.strict = false)
    {hop : Hop} {aliasName : String}
    (h : joinTables g ⟨g.table options, w⟩ o v
      (hop :: (g.ancestors hop.target).map (g.ancestorHop options hop aliasName)) = .error e) :
    g.Witnesses hop.target e := by
  obtain ⟨hop', hhop', herror⟩ := joinTables_eq_error ho h
  have hwitnesses := table_witnesses hoptions herror
  rcases List.mem_cons.mp hhop' with rfl | hhop'
  · exact hwitnesses
  · obtain ⟨ancestor, hancestor, rfl⟩ := List.mem_map.mp hhop'
    exact hwitnesses.mono (reaches_of_inherits (mem_ancestors_iff.mp hancestor).2.to_reflTransGen)

/-- The path of a walk is `start`, and then what was joined one from the other. -/
theorem follow_witnesses (hoptions : options.strict = false) (ho : o.strict = false)
    {start : Key} {steps : Nat} {targets : List Key} {hop : Hop}
    (h : follow g options ⟨g.table options, w⟩ o steps (start :: targets) v hop = .error e)
    (hnodup : (start :: targets).Nodup) (hwalk : g.IsJoinWalk start (targets ++ [hop.target])) :
    g.Witnesses start e := by
  induction steps generalizing targets v hop with
  | zero =>
      obtain rfl := Except.error.inj h
      trivial
  | succ steps ih =>
      rw [follow] at h
      split at h
      · rename_i hmem
        obtain rfl := Except.error.inj h
        exact hwalk.witnesses hnodup hmem o.label
      · rename_i hfresh
        rcases bind_eq_error_iff.mp h with h | ⟨⟨joined, standing⟩, hjoined, h⟩
        · exact (joinTables_witnesses hoptions ho h).mono (hwalk.reached _ (by simp))
        · obtain ⟨tables, htables, rfl, -⟩ := joinTables_eq_ok hjoined
          simp only [List.flatMap_map] at h
          obtain ⟨next, hnext, u, hfollow⟩ := exists_of_foldlM_eq_error h
          have hrequired : g.MustHave hop.target next.target :=
            (exists_mem_onwardHops_iff htables).mp ⟨next, hnext, rfl⟩
          exact ih hfollow (nodup_append_singleton hnodup hfresh) (hwalk.append hrequired)

theorem viewFrom_witnesses (hoptions : options.strict = false)
    (hw : ∀ parent e, g.Inherits key parent → w parent = .error e → g.Witnesses parent e)
    (h : g.viewFrom options ⟨g.table options, w⟩ key = .error e) : g.Witnesses key e := by
  rcases bind_eq_error_iff.mp h with h | ⟨table, -, h⟩
  · exact table_witnesses hoptions h
  have ho : (⟨.logical, table.label, options.strict⟩ : Occasion).strict = false := hoptions
  rcases bind_eq_error_iff.mp h with h | ⟨own, -, h⟩
  · obtain ⟨v', hv'⟩ := ViewDraft.exists_addColumns_eq_ok ho _ _
    cases hv'.symm.trans h
  rcases bind_eq_error_iff.mp h with h | ⟨exposed, -, h⟩
  · obtain ⟨hop, hhop, u, hfollow⟩ := exists_of_foldlM_eq_error h
    have hhas : g.Has key hop.target := has_iff_exists_mem_firstHops.mpr ⟨hop, hhop, rfl⟩
    have hwalk : g.IsJoinWalk key ([] ++ [hop.target]) := ⟨hhas, List.IsChain.singleton _⟩
    exact follow_witnesses hoptions ho hfollow (List.nodup_singleton key) hwalk
  rcases bind_eq_error_iff.mp h with h | ⟨last, -, h⟩
  · obtain ⟨parent, hparent, u, hjoin⟩ := exists_of_foldlM_eq_error h
    have hinherits : g.Inherits key parent := hparent
    exact (hw parent e hinherits (joinParent_eq_error ho hjoin)).mono (.single hinherits.mentions)
  · cases h

end Failure

theorem viewWithin_witnesses (hoptions : options.strict = false) {steps : Nat}
    (h : g.viewWithin options steps key = .error e) : g.Witnesses key e := by
  induction steps generalizing key e with
  | zero =>
      obtain rfl := Except.error.inj h
      trivial
  | succ steps ih => exact viewFrom_witnesses hoptions (fun _ _ _ hparent => ih hparent) h

theorem schema_witnesses {layer : Layer} (h : g.schema options layer key = .error e) :
    g.Witnesses key e := by
  refine error_of_lenient (fun o => g.schema o layer key) (fun type => schema_does g type layer key)
    (fun _ _ _ _ => trivial) (fun type e he => ?_) h
  cases layer with
  | physical => exact table_witnesses rfl (map_eq_error_iff.mp he)
  | logical => exact viewWithin_witnesses rfl (map_eq_error_iff.mp he)

theorem IsInheritanceCycle.declares {keys : List Key} (h : g.IsInheritanceCycle keys) :
    ∀ k ∈ keys, g.declares k = true := by
  intro k hk
  obtain ⟨next, hnext⟩ := h.leadsRound.exists_next h.inherits hk
  exact declares_of_inherits hnext

theorem IsCompositionCycle.declares {keys : List Key} (h : g.IsCompositionCycle keys) :
    ∀ k ∈ keys, g.declares k = true := by
  intro k hk
  obtain ⟨first, second, rest, heq, hfirst, hrest⟩ := h.composes
  have hchain : keys.IsChain fun a b => g.Has a b ∨ g.MustHave a b := by
    rw [heq]
    exact List.isChain_cons_cons.mpr ⟨hfirst, hrest.imp fun _ _ hrequired => Or.inr hrequired⟩
  obtain ⟨previous, hprevious | hprevious⟩ := h.leadsRound.exists_previous hchain hk
  · exact declares_of_isEntity hprevious.isEntity
  · exact declares_of_isEntity hprevious.isEntity

/-- The path names declared terms that statements lead to from `key`. -/
def NamesReached (g : Graph) (terms : List Term) (key : Key) (path : List String) : Prop :=
  ∀ name ∈ path, ∃ t ∈ terms, t.name = name ∧ Relation.ReflTransGen g.Mentions key t.key

theorem Prints.namesReached {primitives : Primitives} {terms : List Term}
    (hg : build primitives terms = .ok g) {path : List String} {keys : List Key}
    (h : g.Prints key path keys) (hdeclares : ∀ k ∈ keys, g.declares k = true) :
    g.NamesReached terms key path ∧ path.map Name.key = keys := by
  obtain ⟨rfl, haccepts⟩ := build_eq_ok_iff.mp hg
  have hlabel : ∀ k ∈ keys, ∃ t ∈ terms, t.key = k ∧
      (ofTerms primitives terms).label k = t.name := by
    intro k hk
    obtain ⟨t, ht, rfl⟩ := declares_ofTerms_iff.mp (hdeclares k hk)
    exact ⟨t, ht, rfl, (keyOf_of_mem haccepts ht).2⟩
  constructor
  · intro name hname
    rw [h.path_eq] at hname
    obtain ⟨k, hk, rfl⟩ := List.mem_map.mp hname
    obtain ⟨t, ht, rfl, hname⟩ := hlabel k hk
    exact ⟨t, ht, hname.symm, h.reached t.key hk⟩
  · rw [h.path_eq, labels, List.map_map]
    refine (List.map_congr_left fun k hk => ?_).trans (List.map_id keys)
    obtain ⟨t, -, rfl, hname⟩ := hlabel k hk
    exact congrArg Name.key hname

/-- When a term is not resolved because of a cycle, the reported path names one that it leads to. -/
theorem reportedCycles_areReal {primitives : Primitives} {terms : List Term}
    (hg : build primitives terms = .ok g) {layer : Layer} {term : String} {path : List String} :
    (g.schema options layer key = .error (.cyclicInheritance term path) →
      g.NamesReached terms key path ∧ g.IsInheritanceCycle (path.map Name.key)) ∧
    (g.schema options layer key = .error (.cyclicComposition term path) →
      g.NamesReached terms key path ∧ g.IsCompositionCycle (path.map Name.key)) := by
  constructor
  · intro h
    obtain ⟨keys, hprints, hcycle⟩ := schema_witnesses h
    obtain ⟨hnames, rfl⟩ := hprints.namesReached hg hcycle.declares
    exact ⟨hnames, hcycle⟩
  · intro h
    obtain ⟨keys, hprints, hcycle⟩ := schema_witnesses h
    obtain ⟨hnames, rfl⟩ := hprints.namesReached hg hcycle.declares
    exact ⟨hnames, hcycle⟩

end Graph

/-- A team has a lead, who must have a team; an employee must have a manager, who is an employee. -/
def snarledTerms : List Term := [
  ⟨"Party", "Anyone we deal with.", none, none, [⟨.inherits, "Party", "Person", none⟩], none⟩,
  ⟨"Person", "A human being.", none, none, [⟨.inherits, "Person", "Party", none⟩], none⟩,
  ⟨"Team", "A group.", none, none, [⟨.composes, "Team", "Lead", none⟩], none⟩,
  ⟨"Lead", "The head of a team.", none, none, [⟨.requires, "Lead", "Team", none⟩], none⟩,
  ⟨"Employee", "A person on the payroll.", none, none,
    [⟨.requires, "Employee", "Manager", none⟩], none⟩,
  ⟨"Manager", "An employee who leads others.", none, none,
    [⟨.inherits, "Manager", "Employee", none⟩], none⟩,
  ⟨"Desk", "A place to sit.", none, none, [⟨.composes, "Desk", "Employee", none⟩], none⟩]

def snarled : Graph :=
  Graph.ofTerms (Primitives.ofNames builtInPrimitives) snarledTerms

theorem snarled_schemas :
    (snarled.schema .standard .physical "party").map (fun _ => ()) =
      .error (.cyclicInheritance "Party" ["Party", "Person", "Party"]) ∧
    (snarled.schema .standard .logical "team").map (fun _ => ()) =
      .error (.cyclicComposition "Team" ["Team", "Lead", "Team"]) ∧
    (snarled.schema .standard .logical "desk").map (fun _ => ()) =
      .error (.cyclicComposition "Desk" ["Manager", "Manager"]) := by
  decide +kernel

/-- The manager is reported to need a manager, as every employee does. -/
theorem snarled_cycles_areReal :
    Graph.build (Primitives.ofNames builtInPrimitives) snarledTerms = .ok snarled ∧
      snarled.IsInheritanceCycle (["Party", "Person", "Party"].map Name.key) ∧
      snarled.IsCompositionCycle (["Team", "Lead", "Team"].map Name.key) ∧
      snarled.IsCompositionCycle (["Manager", "Manager"].map Name.key) ∧
      snarled.NamesReached snarledTerms "desk" ["Manager", "Manager"] := by
  have hbuild : Graph.build (Primitives.ofNames builtInPrimitives) snarledTerms = .ok snarled :=
    rfl
  obtain ⟨hparty, hteam, hdesk⟩ := snarled_schemas
  have hinheritance := (Graph.reportedCycles_areReal hbuild).1 (map_eq_error_iff.mp hparty)
  have hcomposition := (Graph.reportedCycles_areReal hbuild).2 (map_eq_error_iff.mp hteam)
  have hmanager := (Graph.reportedCycles_areReal hbuild).2 (map_eq_error_iff.mp hdesk)
  exact ⟨hbuild, hinheritance.2, hcomposition.2, hmanager.2, hmanager.1⟩

end Glossary
