import Glossary.Proofs.ViewAssembly

/-!
Which terms can be resolved. A table exists unless a cycle of `is a` statements is reached; a view
exists when, besides, no way along the things that a term or one of its ancestors has, and that
these must have, comes back to a term that it has visited.
-/

namespace Glossary

open Fallible

theorem ViewDraft.exists_addColumns_eq_ok {o : Occasion} (ho : o.strict = false) (v : ViewDraft)
    (columns : List ViewColumn) : ∃ v', v.addColumns o columns = .ok v' := by
  obtain ⟨d, hd⟩ := Draft.exists_addAll_eq_ok ViewColumn.toColumn ho v.toDraft columns
  exact ⟨_, bind_eq_ok_iff.mpr ⟨d, hd, rfl⟩⟩

def ResolutionError.IsCycle (e : ResolutionError) : Prop :=
  ∃ term path, e = .cyclicInheritance term path ∨ e = .cyclicComposition term path

namespace Graph

/-- The term has, or must have, the entity `target`. -/
def Has (g : Graph) (key target : Key) : Prop :=
  ∃ l ∈ g.references key, l.target = target ∧ g.isEntity target = true

/-- The term, or one that it inherits from, must have the entity `target`. -/
def MustHave (g : Graph) (key target : Key) : Prop :=
  ∃ owner, Relation.ReflTransGen g.Inherits key owner ∧
    ∃ l ∈ g.requirements owner, l.target = target ∧ g.isEntity target = true

/-- The terms that are joined one from the other when one starts from the table of `key`: first a
thing that it has, then always a thing that the one before must have. -/
def IsJoinWalk (g : Graph) (key : Key) : List Key → Prop
  | [] => True
  | target :: rest => g.Has key target ∧ (target :: rest).IsChain g.MustHave

/-- No join walk of the term visits a term twice or reaches a cycle of `is a` statements. -/
def JoinsSafely (g : Graph) (key : Key) : Prop :=
  ∀ targets, g.IsJoinWalk key targets →
    (key :: targets).Nodup ∧ ∀ target ∈ targets, ¬ g.ReachesCycle target

variable {g : Graph} {options : ResolutionOptions} {o : Occasion} {key target : Key}

theorem Has.declares (h : g.Has key target) : g.declares key = true := by
  obtain ⟨l, hl, -, -⟩ := h
  exact declares_of_link (List.mem_of_mem_filter hl)

theorem Has.isEntity (h : g.Has key target) : g.isEntity target = true := by
  obtain ⟨l, -, -, hentity⟩ := h
  exact hentity

theorem MustHave.isEntity (h : g.MustHave key target) : g.isEntity target = true := by
  obtain ⟨owner, -, l, -, -, hentity⟩ := h
  exact hentity

theorem has_iff_exists_mem_firstHops :
    g.Has key target ↔ ∃ hop ∈ g.firstHops options key, hop.target = target := by
  simp only [Has, firstHops, List.mem_map, List.mem_filter]
  constructor
  · rintro ⟨l, hl, rfl, hentity⟩
    exact ⟨_, ⟨l, ⟨hl, hentity⟩, rfl⟩, rfl⟩
  · rintro ⟨hop, ⟨l, ⟨hl, hentity⟩, rfl⟩, rfl⟩
    exact ⟨l, hl, rfl, hentity⟩

theorem exists_mem_furtherHops_iff (options : ResolutionOptions) (isOptional : Bool)
    (standing : Key × String) :
    (∃ hop ∈ g.furtherHops options isOptional standing, hop.target = target) ↔
      ∃ l ∈ g.requirements standing.1, l.target = target ∧ g.isEntity target = true := by
  simp only [furtherHops, List.mem_map, List.mem_filter]
  constructor
  · rintro ⟨hop, ⟨l, ⟨hl, hentity⟩, rfl⟩, rfl⟩
    exact ⟨l, hl, rfl, hentity⟩
  · rintro ⟨l, hl, rfl, hentity⟩
    exact ⟨_, ⟨l, ⟨hl, hentity⟩, rfl⟩, rfl⟩

theorem exists_mem_tables_iff {n : Nat} {hop : Hop} {tables : List Attachment} {owner : Key}
    (h : g.TablesJoined options n (g.arrivalHops options n hop) tables) :
    (∃ a ∈ tables, a.join.target = owner) ↔
      Relation.ReflTransGen g.Inherits hop.target owner := by
  have hmem : (∃ a ∈ tables, a.join.target = owner) ↔
      owner ∈ tables.map fun a => a.join.target := List.mem_map.symm
  rw [hmem, h.map_target, ← eq_or_mem_ancestors_iff]
  simp [arrivalHops, ancestorHop, Function.comp_def]

theorem exists_mem_onwardHops_iff {n : Nat} {hop : Hop} {tables : List Attachment}
    (h : g.TablesJoined options n (g.arrivalHops options n hop) tables) :
    (∃ next ∈ g.onwardHops options hop tables, next.target = target) ↔
      g.MustHave hop.target target := by
  constructor
  · rintro ⟨next, hnext, htarget⟩
    obtain ⟨a, ha, hnext⟩ := List.mem_flatMap.mp hnext
    refine ⟨a.join.target, (exists_mem_tables_iff h).mp ⟨a, ha, rfl⟩, ?_⟩
    exact (exists_mem_furtherHops_iff options hop.isOptional a.standing).mp ⟨next, hnext, htarget⟩
  · rintro ⟨owner, hreach, hrequired⟩
    obtain ⟨a, ha, rfl⟩ := (exists_mem_tables_iff h).mpr hreach
    obtain ⟨next, hnext, htarget⟩ :=
      (exists_mem_furtherHops_iff options hop.isOptional a.standing).mpr hrequired
    exact ⟨next, List.mem_flatMap.mpr ⟨a, ha, hnext⟩, htarget⟩

/-- What has been exposed has been walked: every walk that starts with one of the hops avoids the
path, repeats nothing and reaches no cycle. -/
theorem Exposed.walk {path : List Key} {n : Nat} {hops : List Hop} {as : List Attachment}
    (h : g.Exposed options path n hops as) (hpath : path.Nodup) {hop : Hop} (hhop : hop ∈ hops)
    {rest : List Key} (hchain : (hop.target :: rest).IsChain g.MustHave) :
    (path ++ hop.target :: rest).Nodup ∧
      ∀ t ∈ hop.target :: rest, ¬ g.ReachesCycle t := by
  induction h generalizing hop rest with
  | nil => cases hhop
  | @cons path n first others tables below after hfresh htables _ _ ihBelow ihAfter =>
      rcases List.mem_cons.mp hhop with rfl | hhop
      · have hacyclic : ¬ g.ReachesCycle hop.target := by
          cases htables with
          | cons htable _ => exact (isTable_of_table_eq_ok htable).acyclic
        have hpath' : (path ++ [hop.target]).Nodup :=
          nodup_append_singleton hpath hfresh
        cases rest with
        | nil => exact ⟨hpath', by simpa using hacyclic⟩
        | cons t rest =>
            obtain ⟨hrequired, hchain⟩ := List.isChain_cons_cons.mp hchain
            obtain ⟨next, hnext, rfl⟩ := (exists_mem_onwardHops_iff htables).mpr hrequired
            obtain ⟨hnodup, hrest⟩ := ihBelow hpath' hnext hchain
            exact ⟨by simpa using hnodup, List.forall_mem_cons.mpr ⟨hacyclic, hrest⟩⟩
      · exact ihAfter hpath hhop hchain

theorem Assembles.joinsSafely {table : TableSchema} {exposed parents : List Attachment}
    {v : ViewSchema} (h : g.Assembles options key table exposed parents v) :
    g.JoinsSafely key := by
  intro targets hwalk
  cases targets with
  | nil => simp
  | cons target rest =>
      obtain ⟨hhas, hchain⟩ := hwalk
      obtain ⟨hop, hhop, rfl⟩ := has_iff_exists_mem_firstHops.mp hhas
      exact h.exposed_of.walk (List.nodup_singleton key) hhop hchain

theorem ParentsJoined.exists_view {n : Nat} {parents : List Key} {as : List Attachment}
    (h : g.ParentsJoined options key n parents as) {parent : Key} (hparent : parent ∈ parents) :
    ∃ ancestor, g.view options parent = .ok ancestor := by
  induction h with
  | nil => cases hparent
  | cons hview _ ih =>
      rcases List.mem_cons.mp hparent with rfl | hparent
      · exact ⟨_, hview⟩
      · exact ih hparent

theorem exists_view_of_reflTransGen {v : ViewSchema} (h : g.view options key = .ok v) {a : Key}
    (hreach : Relation.ReflTransGen g.Inherits key a) :
    ∃ v', g.view options a = .ok v' := by
  induction hreach with
  | refl => exact ⟨v, h⟩
  | tail _ hparent ih =>
      obtain ⟨v', hv'⟩ := ih
      obtain ⟨table, exposed, parents, hassembles⟩ := exists_assembles hv'
      exact hassembles.parents_of.exists_view hparent

section Failure

variable {w : Key → Except ResolutionError ViewSchema} {v : ViewDraft} {e : ResolutionError}

theorem joinTables_eq_error (ho : o.strict = false) {hops : List Hop}
    (h : joinTables g ⟨g.table options, w⟩ o v hops = .error e) :
    ∃ hop ∈ hops, g.table options hop.target = .error e := by
  induction hops generalizing v with
  | nil => cases h
  | cons hop hops ih =>
      rcases bind_eq_error_iff.mp h with h | ⟨next, -, h⟩
      · rcases bind_eq_error_iff.mp h with h | ⟨table, -, h⟩
        · exact ⟨hop, List.mem_cons_self, h⟩
        · obtain ⟨v', hv'⟩ := ViewDraft.exists_addColumns_eq_ok ho _ _
          cases hv'.symm.trans h
      · rcases bind_eq_error_iff.mp h with h | ⟨⟨last, standing⟩, -, h⟩
        · obtain ⟨hop', hhop', herror⟩ := ih h
          exact ⟨hop', List.mem_cons_of_mem hop hhop', herror⟩
        · cases h

theorem reachesCycle_of_joinTables_eq_error (hoptions : options.strict = false)
    (ho : o.strict = false) {hop : Hop} {aliasName : String}
    (h : joinTables g ⟨g.table options, w⟩ o v
      (hop :: (g.ancestors hop.target).map (g.ancestorHop options hop aliasName)) = .error e) :
    e.IsCycle ∧ g.ReachesCycle hop.target := by
  obtain ⟨hop', hhop', herror⟩ := joinTables_eq_error ho h
  obtain ⟨hcycle, cycle, rfl⟩ := table_eq_error hoptions herror
  have hreach : Relation.ReflTransGen g.Inherits hop.target hop'.target := by
    rw [← eq_or_mem_ancestors_iff]
    simp only [List.mem_cons, List.mem_map] at hhop'
    rcases hhop' with rfl | ⟨ancestor, hancestor, rfl⟩
    · exact Or.inl rfl
    · exact Or.inr hancestor
  exact ⟨⟨_, _, Or.inl rfl⟩, hcycle.of_reflTransGen hreach⟩

theorem joinParent_eq_error (ho : o.strict = false) {parent : Key}
    (h : joinParent g options ⟨g.table options, w⟩ o key v parent = .error e) :
    w parent = .error e := by
  rcases bind_eq_error_iff.mp h with h | ⟨ancestor, -, h⟩
  · exact h
  · obtain ⟨v', hv'⟩ := ViewDraft.exists_addColumns_eq_ok ho _ _
    cases hv'.symm.trans h

/-- Some walk that starts with `target` comes back to the path or to itself, or reaches a cycle. -/
def WalksAstray (g : Graph) (path : List Key) (target : Key) : Prop :=
  ∃ rest, (target :: rest).IsChain g.MustHave ∧
    ((path ++ target :: rest).Nodup → ∃ t ∈ target :: rest, g.ReachesCycle t)

theorem WalksAstray.of_mem {path : List Key} (h : target ∈ path) :
    g.WalksAstray path target := by
  refine ⟨[], List.IsChain.singleton _, fun hnodup => ?_⟩
  exact absurd h (List.disjoint_singleton.mp (List.disjoint_of_nodup_append hnodup))

theorem WalksAstray.of_reachesCycle {path : List Key} (h : g.ReachesCycle target) :
    g.WalksAstray path target :=
  ⟨[], List.IsChain.singleton _, fun _ => ⟨target, List.mem_cons_self, h⟩⟩

theorem WalksAstray.of_mustHave {path : List Key} {t : Key}
    (h : g.WalksAstray (path ++ [target]) t) (hrequired : g.MustHave target t) :
    g.WalksAstray path target := by
  obtain ⟨rest, hchain, hastray⟩ := h
  refine ⟨t :: rest, List.isChain_cons_cons.mpr ⟨hrequired, hchain⟩, fun hnodup => ?_⟩
  obtain ⟨u, hu, hcycle⟩ := hastray (by simpa using hnodup)
  exact ⟨u, List.mem_cons_of_mem target hu, hcycle⟩

theorem WalksAstray.not_joinsSafely (h : g.WalksAstray [key] target) (hhas : g.Has key target) :
    ¬ g.JoinsSafely key := by
  obtain ⟨rest, hchain, hastray⟩ := h
  intro hsafe
  obtain ⟨hnodup, hacyclic⟩ := hsafe (target :: rest) ⟨hhas, hchain⟩
  obtain ⟨t, ht, hcycle⟩ := hastray hnodup
  exact hacyclic t ht hcycle

theorem walksAstray_of_follow_eq_error (hoptions : options.strict = false)
    (ho : o.strict = false) {steps : Nat} {path : List Key} {hop : Hop}
    (h : follow g options ⟨g.table options, w⟩ o steps path v hop = .error e)
    (hpath : path.Nodup) (hdeclared : ∀ k ∈ path, g.declares k = true)
    (hentity : g.isEntity hop.target = true) (hsteps : g.size < steps + path.length) :
    e.IsCycle ∧ g.WalksAstray path hop.target := by
  induction steps generalizing path v hop with
  | zero =>
      -- the path holds distinct declared terms, and would be longer than the dictionary
      have hle := length_le_size hpath hdeclared
      omega
  | succ steps ih =>
      rw [follow] at h
      split at h
      · rename_i hmem
        exact ⟨⟨_, _, Or.inr (Except.error.inj h).symm⟩, WalksAstray.of_mem hmem⟩
      · rename_i hfresh
        rcases bind_eq_error_iff.mp h with h | ⟨⟨joined, standing⟩, hjoined, h⟩
        · obtain ⟨hcycle, hreaches⟩ := reachesCycle_of_joinTables_eq_error hoptions ho h
          exact ⟨hcycle, WalksAstray.of_reachesCycle hreaches⟩
        · obtain ⟨tables, htables, rfl, -⟩ := joinTables_eq_ok hjoined
          simp only [List.flatMap_map] at h
          obtain ⟨next, hnext, u, hfollow⟩ := exists_of_foldlM_eq_error h
          have hrequired : g.MustHave hop.target next.target :=
            (exists_mem_onwardHops_iff htables).mp ⟨next, hnext, rfl⟩
          have hdeclared' : ∀ k ∈ path ++ [hop.target], g.declares k = true :=
            List.forall_mem_append.mpr
              ⟨hdeclared, List.forall_mem_singleton.mpr (declares_of_isEntity hentity)⟩
          obtain ⟨hcycle, hastray⟩ := ih hfollow (nodup_append_singleton hpath hfresh) hdeclared'
            hrequired.isEntity (by simp; omega)
          exact ⟨hcycle, hastray.of_mustHave hrequired⟩

theorem viewFrom_eq_error (hoptions : options.strict = false)
    (h : g.viewFrom options ⟨g.table options, w⟩ key = .error e) :
    (e.IsCycle ∧ (g.ReachesCycle key ∨ ¬ g.JoinsSafely key)) ∨
      (¬ g.ReachesCycle key ∧ ∃ parent, g.Inherits key parent ∧ w parent = .error e) := by
  rcases bind_eq_error_iff.mp h with h | ⟨table, htable, h⟩
  · obtain ⟨hcycle, cycle, rfl⟩ := table_eq_error hoptions h
    exact Or.inl ⟨⟨_, _, Or.inl rfl⟩, Or.inl hcycle⟩
  have ho : (⟨.logical, table.label, options.strict⟩ : Occasion).strict = false := hoptions
  rcases bind_eq_error_iff.mp h with h | ⟨own, -, h⟩
  · obtain ⟨v', hv'⟩ := ViewDraft.exists_addColumns_eq_ok ho _ _
    cases hv'.symm.trans h
  rcases bind_eq_error_iff.mp h with h | ⟨exposed, -, h⟩
  · obtain ⟨hop, hhop, u, hfollow⟩ := exists_of_foldlM_eq_error h
    have hhas : g.Has key hop.target := has_iff_exists_mem_firstHops.mpr ⟨hop, hhop, rfl⟩
    obtain ⟨hcycle, hastray⟩ := walksAstray_of_follow_eq_error hoptions ho hfollow
      (List.nodup_singleton key) (List.forall_mem_singleton.mpr hhas.declares) hhas.isEntity
      (by simp only [stepBound, List.length_singleton]; omega)
    exact Or.inl ⟨hcycle, Or.inr (hastray.not_joinsSafely hhas)⟩
  rcases bind_eq_error_iff.mp h with h | ⟨last, -, h⟩
  · obtain ⟨parent, hparent, u, hjoin⟩ := exists_of_foldlM_eq_error h
    exact Or.inr ⟨(isTable_of_table_eq_ok htable).acyclic, parent, hparent,
      joinParent_eq_error ho hjoin⟩
  · cases h

/-- A view is missing only because of a cycle, or because a walk of the term or of one of its
ancestors goes astray. The terms `below` are those whose views wait for this one. -/
theorem viewWithin_eq_error (hoptions : options.strict = false) {steps : Nat}
    (h : g.viewWithin options steps key = .error e) {below : List Key}
    (hbelow : g.StandBelow below key) (hsteps : g.size < steps + below.length) :
    e.IsCycle ∧ (g.ReachesCycle key ∨
      ∃ a, Relation.ReflTransGen g.Inherits key a ∧ ¬ g.JoinsSafely a) := by
  induction steps generalizing key below with
  | zero =>
      -- more terms would wait for their views than there are
      have hle := hbelow.length_le_size
      omega
  | succ steps ih =>
      rcases viewFrom_eq_error hoptions h with
        ⟨hcycle, hreason⟩ | ⟨hacyclic, parent, hparent, hview⟩
      · exact ⟨hcycle, hreason.imp_right fun hunsafe => ⟨key, Relation.ReflTransGen.refl, hunsafe⟩⟩
      · have hfresh : key ∉ below := by
          intro hmem
          exact hacyclic ⟨key, Relation.ReflTransGen.refl, hbelow.inherit key hmem⟩
        obtain ⟨hcycle, hreason⟩ := ih hview (hbelow.append hfresh hparent) (by simp; omega)
        refine ⟨hcycle, ?_⟩
        rcases hreason with hreason | ⟨a, hreach, hunsafe⟩
        · exact Or.inl (hreason.of_reflTransGen (Relation.ReflTransGen.single hparent))
        · exact Or.inr ⟨a, hreach.head hparent, hunsafe⟩

end Failure

/-- A term has a table unless it reaches a cycle of `is a` statements. It has a view when, besides,
it and all its ancestors join safely. In any other case resolution reports a cycle. -/
theorem resolves_iff {g : Graph} {o : ResolutionOptions} (ho : o.strict = false) (key : Key) :
    ((∃ t, g.table o key = .ok t) ↔ ¬ g.ReachesCycle key) ∧
      (∀ e, g.table o key = .error e →
        ∃ path, e = .cyclicInheritance (g.label key) path) ∧
      ((∃ v, g.view o key = .ok v) ↔ ¬ g.ReachesCycle key ∧
        ∀ a, Relation.ReflTransGen g.Inherits key a → g.JoinsSafely a) ∧
      (∀ e, g.view o key = .error e →
        ∃ term path, e = .cyclicInheritance term path ∨ e = .cyclicComposition term path) := by
  have herror : ∀ e, g.view o key = .error e → e.IsCycle ∧ (g.ReachesCycle key ∨
      ∃ a, Relation.ReflTransGen g.Inherits key a ∧ ¬ g.JoinsSafely a) := fun e h =>
    viewWithin_eq_error ho h StandBelow.nil (by simp [stepBound])
  refine ⟨exists_table_eq_ok_iff ho, fun e h => (table_eq_error ho h).2, ?_,
    fun e h => (herror e h).1⟩
  constructor
  · rintro ⟨v, hv⟩
    obtain ⟨table, exposed, parents, hassembles⟩ := exists_assembles hv
    refine ⟨(isTable_of_table_eq_ok hassembles.table_eq_ok).acyclic, fun a hreach => ?_⟩
    obtain ⟨v', hv'⟩ := exists_view_of_reflTransGen hv hreach
    obtain ⟨table', exposed', parents', hassembles'⟩ := exists_assembles hv'
    exact hassembles'.joinsSafely
  · rintro ⟨hacyclic, hsafe⟩
    cases hview : g.view o key with
    | ok v => exact ⟨v, rfl⟩
    | error e =>
        rcases (herror e hview).2 with hcycle | ⟨a, hreach, hunsafe⟩
        · exact absurd hcycle hacyclic
        · exact absurd (hsafe a hreach) hunsafe

theorem manager_joinsSafely : ¬ staff.ReachesCycle "manager" ∧
    ∀ a, Relation.ReflTransGen staff.Inherits "manager" a → staff.JoinsSafely a := by
  obtain ⟨v, hv, -⟩ := exists_of_map_eq_ok staff_view_manager
  exact (resolves_iff (o := .standard) rfl "manager").2.2.1.mp ⟨v, hv⟩

end Graph

end Glossary
