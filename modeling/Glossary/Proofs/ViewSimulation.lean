import Glossary.Proofs.Agreement
import Glossary.Resolve.View

/-!
The construction of a view asks its sources for schemas, and goes on or fails. Whatever else the
sources do, two constructions do the same when their sources do, when their graphs agree on the
terms that are asked for, and when contributed columns are taken alike. The numbers of steps that
bound the construction are not seen in it.
-/

namespace Glossary

open Fallible

/-- When a computation is taken to do what one does that may only fail. -/
structure Simulation (m : Type → Type) [Monad m] [MonadLiftT (Except ResolutionError) m] where
  Does : {α : Type} → m α → Except ResolutionError α → Prop
  does_pure : ∀ {α : Type} (a : α), Does (pure a : m α) (.ok a)
  does_lift : ∀ {α : Type} (x : Except ResolutionError α), Does (liftM x : m α) x
  does_bind : ∀ {α β : Type} {x : m α} {y : Except ResolutionError α} {f : α → m β}
    {f' : α → Except ResolutionError β}, Does x y → (∀ a, y = .ok a → Does (f a) (f' a)) →
      Does (x >>= f) (y >>= f')

/-- A computation that may only fail does what an equal one does. -/
def Simulation.equality : Simulation (Except ResolutionError) where
  Does x y := x = y
  does_pure _ := rfl
  does_lift _ := rfl
  does_bind := by
    intro α β x y f f' hxy hf
    subst hxy
    cases x with
    | ok a => exact hf a rfl
    | error e => rfl

section Construction

variable {m : Type → Type} [Monad m] [MonadLiftT (Except ResolutionError) m] (sim : Simulation m)

theorem Simulation.does_foldlM {α σ : Type} {f : σ → α → m σ}
    {f' : σ → α → Except ResolutionError σ} {as : List α}
    (hf : ∀ a ∈ as, ∀ t, sim.Does (f t a) (f' t a)) (t : σ) :
    sim.Does (as.foldlM f t) (as.foldlM f' t) := by
  induction as generalizing t with
  | nil => exact sim.does_pure t
  | cons a as ih =>
      rw [List.foldlM_cons, List.foldlM_cons]
      apply sim.does_bind (hf a List.mem_cons_self t)
      intro u _
      exact ih (fun a' ha' => hf a' (List.mem_cons_of_mem a ha')) u

namespace Graph

variable {g g' : Graph} {s : Set Key} {options options' : ResolutionOptions} {sources : Sources m}
  {sources' : Sources (Except ResolutionError)} {label : String} {key : Key}

/-- The sources answer alike about the tables of the set. -/
def TablesAlike (s : Set Key) (sources : Sources m) (sources' : Sources (Except ResolutionError)) :
    Prop :=
  ∀ k ∈ s, sim.Does (sources.table k) (sources'.table k)

/-- Options that name and type identifiers alike, and under which contributed columns are taken
alike. -/
structure OptionsAlike (options options' : ResolutionOptions) : Prop where
  identifierType_eq : options.identifierType = options'.identifierType
  addColumns_does : ∀ label (v : ViewDraft) columns,
    sim.Does (liftM (v.addColumns ⟨.logical, label, options.strict⟩ columns))
      (v.addColumns ⟨.logical, label, options'.strict⟩ columns)

theorem OptionsAlike.refl (options : ResolutionOptions) : OptionsAlike sim options options where
  identifierType_eq := rfl
  addColumns_does _ _ _ := sim.does_lift _

theorem identifierColumn_congr (g : Graph)
    (htype : options.identifierType = options'.identifierType) :
    g.identifierColumn options = g.identifierColumn options' := by
  funext key
  unfold identifierColumn identifierSource
  rw [htype]

theorem referenceColumn_congr (g : Graph)
    (htype : options.identifierType = options'.identifierType) :
    g.referenceColumn options = g.referenceColumn options' := by
  funext l
  unfold referenceColumn
  rw [identifierColumn_congr g htype]

/-- A hop between keys of the set, to a term that stands for things in both graphs. -/
structure LeadsWithin (g g' : Graph) (s : Set Key) (hop : Hop) : Prop where
  parent_mem : hop.parent ∈ s
  target_mem : hop.target ∈ s
  declares : g.declares hop.target = true
  declares' : g'.declares hop.target = true

/-- A path of terms of both graphs. -/
structure IsTrail (g g' : Graph) (s : Set Key) (path : List Key) : Prop where
  nodup : path.Nodup
  mem : ∀ k ∈ path, k ∈ s
  declares : ∀ k ∈ path, g.declares k = true
  declares' : ∀ k ∈ path, g'.declares k = true

theorem IsTrail.append {path : List Key} {hop : Hop} (h : IsTrail g g' s path)
    (hfresh : hop.target ∉ path) (hhop : LeadsWithin g g' s hop) :
    IsTrail g g' s (path ++ [hop.target]) where
  nodup := nodup_append_singleton h.nodup hfresh
  mem := List.forall_mem_append.mpr ⟨h.mem, List.forall_mem_singleton.mpr hhop.target_mem⟩
  declares := List.forall_mem_append.mpr ⟨h.declares, List.forall_mem_singleton.mpr hhop.declares⟩
  declares' :=
    List.forall_mem_append.mpr ⟨h.declares', List.forall_mem_singleton.mpr hhop.declares'⟩

theorem leadsWithin_referenceHop (h : g.AgreesOn g' s) (hkey : key ∈ s) {l : Link}
    (hl : l ∈ g.references key) (hentity : g.isEntity l.target = true) {aliasName : String}
    {isOptional : Bool} :
    LeadsWithin g g' s (g.referenceHop options aliasName key isOptional l) := by
  have htarget := h.reference_mem hkey hl
  have hentity' : g'.isEntity l.target = true := by
    rw [← h.isEntity_eq l.target htarget]
    exact hentity
  exact ⟨hkey, htarget, declares_of_isEntity hentity, declares_of_isEntity hentity'⟩

theorem leadsWithin_of_mem_firstHops (h : g.AgreesOn g' s) (hkey : key ∈ s) {hop : Hop}
    (hhop : hop ∈ g.firstHops options key) : LeadsWithin g g' s hop := by
  obtain ⟨l, hl, rfl⟩ := List.mem_map.mp hhop
  obtain ⟨hl, hentity⟩ := List.mem_filter.mp hl
  exact leadsWithin_referenceHop h hkey hl hentity

theorem leadsWithin_of_mem_furtherHops (h : g.AgreesOn g' s) {standing : Key × String}
    (hstanding : standing.1 ∈ s) {isOptional : Bool} {hop : Hop}
    (hhop : hop ∈ g.furtherHops options isOptional standing) : LeadsWithin g g' s hop := by
  obtain ⟨l, hl, rfl⟩ := List.mem_map.mp hhop
  obtain ⟨hl, hentity⟩ := List.mem_filter.mp hl
  exact leadsWithin_referenceHop h hstanding (List.mem_of_mem_filter hl) hentity

theorem referenceHop_eq (h : g.AgreesOn g' s)
    (htype : options.identifierType = options'.identifierType) {l l' : Link} (hl : l.target ∈ s)
    (harrow : l.arrow = l'.arrow) (aliasName : String) (isOptional : Bool) :
    g.referenceHop options aliasName key isOptional l =
      g'.referenceHop options' aliasName key isOptional l' := by
  obtain ⟨hrelation, htarget⟩ := Prod.mk.inj harrow
  unfold referenceHop
  rw [h.referenceColumn_eq options hl harrow, referenceColumn_congr g' htype, hrelation, htarget]

theorem firstHops_eq (h : g.AgreesOn g' s)
    (htype : options.identifierType = options'.identifierType) (hkey : key ∈ s) :
    g.firstHops options key = g'.firstHops options' key := by
  apply map_eq_map_of_map_eq
    (h.filter_isEntity_eq (h.references_eq hkey) fun l hl => h.reference_mem hkey hl)
  intro l hl l' _ harrow
  rw [(Prod.mk.inj harrow).1]
  exact referenceHop_eq h htype (h.reference_mem hkey (List.mem_of_mem_filter hl)) harrow _ _

theorem furtherHops_eq (h : g.AgreesOn g' s)
    (htype : options.identifierType = options'.identifierType) {standing : Key × String}
    (hstanding : standing.1 ∈ s) (isOptional : Bool) :
    g.furtherHops options isOptional standing = g'.furtherHops options' isOptional standing := by
  have hmem : ∀ l ∈ g.requirements standing.1, l.target ∈ s := by
    intro l hl
    exact h.reference_mem hstanding (List.mem_of_mem_filter hl)
  apply map_eq_map_of_map_eq (h.filter_isEntity_eq (h.requirements_eq hstanding) hmem)
  intro l hl l' _ harrow
  exact referenceHop_eq h htype (hmem l (List.mem_of_mem_filter hl)) harrow _ _

theorem joinTable_does (h : g.AgreesOn g' s) (hoptions : OptionsAlike sim options options')
    (htables : TablesAlike sim s sources sources') {v : ViewDraft} {hop : Hop}
    (hparent : hop.parent ∈ s) (htarget : hop.target ∈ s) :
    sim.Does (joinTable g sources ⟨.logical, label, options.strict⟩ v hop)
      (joinTable g' sources' ⟨.logical, label, options'.strict⟩ v hop) := by
  unfold joinTable
  apply sim.does_bind (htables hop.target htarget)
  intro table _
  rw [h.label_eq hop.parent hparent]
  exact hoptions.addColumns_does _ _ _

theorem joinTables_does (h : g.AgreesOn g' s) (hoptions : OptionsAlike sim options options')
    (htables : TablesAlike sim s sources sources') {v : ViewDraft} {hops : List Hop}
    (hhops : ∀ hop ∈ hops, hop.parent ∈ s ∧ hop.target ∈ s) :
    sim.Does (joinTables g sources ⟨.logical, label, options.strict⟩ v hops)
      (joinTables g' sources' ⟨.logical, label, options'.strict⟩ v hops) := by
  induction hops generalizing v with
  | nil => exact sim.does_pure _
  | cons hop hops ih =>
      obtain ⟨hparent, htarget⟩ := hhops hop List.mem_cons_self
      apply sim.does_bind (joinTable_does sim h hoptions htables hparent htarget)
      intro next _
      apply sim.does_bind (ih fun hop' hmem => hhops hop' (List.mem_cons_of_mem hop hmem))
      intro last _
      exact sim.does_pure _

theorem map_fst_of_joinTables_eq_ok {o : Occasion} {v v' : ViewDraft} {hops : List Hop}
    {standing : List (Key × String)} (h : joinTables g sources' o v hops = .ok (v', standing)) :
    standing.map Prod.fst = hops.map Hop.target := by
  induction hops generalizing v standing with
  | nil =>
      obtain ⟨-, rfl⟩ := Prod.mk.inj (Except.ok.inj h)
      rfl
  | cons hop hops ih =>
      obtain ⟨next, -, h⟩ := bind_eq_ok_iff.mp h
      obtain ⟨⟨last, rest⟩, hrest, h⟩ := bind_eq_ok_iff.mp h
      obtain ⟨rfl, rfl⟩ := Prod.mk.inj (Except.ok.inj h)
      rw [List.map_cons, List.map_cons, ih hrest]

theorem ancestorHops_eq (h : g.AgreesOn g' s)
    (htype : options.identifierType = options'.identifierType) {hop : Hop}
    (htarget : hop.target ∈ s) (aliasName : String) :
    (g.ancestors hop.target).map (g.ancestorHop options hop aliasName) =
      (g'.ancestors hop.target).map (g'.ancestorHop options' hop aliasName) := by
  rw [← h.ancestors_eq htarget]
  apply List.map_congr_left
  intro ancestor hancestor
  unfold ancestorHop
  rw [h.identifierColumn_eq options (h.ancestor_mem htarget hancestor),
    identifierColumn_congr g' htype]

/-- Following a hop does the same in both graphs, with any steps that leave room for all terms. -/
theorem follow_does (h : g.AgreesOn g' s) (hoptions : OptionsAlike sim options options')
    (htables : TablesAlike sim s sources sources') {steps steps' : Nat} {path : List Key}
    {v : ViewDraft} {hop : Hop}
    (hhop : LeadsWithin g g' s hop) (hpath : IsTrail g g' s path)
    (hsteps : g.size < steps + path.length) (hsteps' : g'.size < steps' + path.length) :
    sim.Does (follow g options sources ⟨.logical, label, options.strict⟩ steps path v hop)
      (follow g' options' sources' ⟨.logical, label, options'.strict⟩ steps' path v hop) := by
  -- neither walk runs out of steps: a trail repeats no term, so it is no longer than its graph
  induction steps generalizing steps' path v hop with
  | zero =>
      have hle := length_le_size hpath.nodup hpath.declares
      omega
  | succ steps ih =>
      cases steps' with
      | zero =>
          have hle := length_le_size hpath.nodup hpath.declares'
          omega
      | succ steps' =>
          rw [follow, follow]
          by_cases hcycle : hop.target ∈ path
          · rw [if_pos hcycle, if_pos hcycle, h.labels_cycleAt_eq hhop.target_mem hpath.mem]
            exact sim.does_lift _
          · rw [if_neg hcycle, if_neg hcycle]
            simp only [← ancestorHops_eq h hoptions.identifierType_eq hhop.target_mem]
            have harrivals : ∀ next ∈ hop :: (g.ancestors hop.target).map
                (g.ancestorHop options hop v.nextAlias), next.parent ∈ s ∧ next.target ∈ s := by
              intro next hnext
              rcases List.mem_cons.mp hnext with rfl | hnext
              · exact ⟨hhop.parent_mem, hhop.target_mem⟩
              · obtain ⟨ancestor, hancestor, rfl⟩ := List.mem_map.mp hnext
                exact ⟨hhop.target_mem, h.ancestor_mem hhop.target_mem hancestor⟩
            apply sim.does_bind (joinTables_does sim h hoptions htables harrivals)
            rintro ⟨joined, standing⟩ hjoined
            have hstanding : ∀ t ∈ standing, t.1 ∈ s := by
              intro t ht
              have hmem : t.1 ∈ standing.map Prod.fst := List.mem_map_of_mem ht
              rw [map_fst_of_joinTables_eq_ok hjoined] at hmem
              obtain ⟨next, hnext, heq⟩ := List.mem_map.mp hmem
              rw [← heq]
              exact (harrivals next hnext).2
            have hfurther : standing.flatMap (g.furtherHops options hop.isOptional) =
                standing.flatMap (g'.furtherHops options' hop.isOptional) :=
              List.flatMap_congr fun t ht =>
                furtherHops_eq h hoptions.identifierType_eq (hstanding t ht) _
            dsimp only
            rw [← hfurther]
            apply sim.does_foldlM
            intro next hnext t
            obtain ⟨t', ht', hnext⟩ := List.mem_flatMap.mp hnext
            apply ih (leadsWithin_of_mem_furtherHops h (hstanding t' ht') hnext)
              (hpath.append hcycle hhop)
            · rw [List.length_append, List.length_singleton]
              omega
            · rw [List.length_append, List.length_singleton]
              omega

theorem joinParent_does (h : g.AgreesOn g' s) (hoptions : OptionsAlike sim options options')
    {v : ViewDraft} {parent : Key} (hparent : parent ∈ s)
    (hview : sim.Does (sources.view parent) (sources'.view parent)) :
    sim.Does (joinParent g options sources ⟨.logical, label, options.strict⟩ key v parent)
      (joinParent g' options' sources' ⟨.logical, label, options'.strict⟩ key v parent) := by
  unfold joinParent
  apply sim.does_bind hview
  intro ancestor _
  rw [h.identifierColumn_eq options hparent, identifierColumn_congr g' hoptions.identifierType_eq]
  exact hoptions.addColumns_does _ _ _

theorem viewFrom_does (h : g.AgreesOn g' s) (hoptions : OptionsAlike sim options options')
    (hkey : key ∈ s)
    (htables : TablesAlike sim s sources sources')
    (hviews : ∀ table, sources'.table key = .ok table →
      ∀ parent ∈ g.parents key, sim.Does (sources.view parent) (sources'.view parent)) :
    sim.Does (g.viewFrom options sources key) (g'.viewFrom options' sources' key) := by
  unfold viewFrom
  apply sim.does_bind (htables key hkey)
  intro table htable
  apply sim.does_bind (hoptions.addColumns_does _ _ _)
  intro own _
  rw [← firstHops_eq h hoptions.identifierType_eq hkey, ← h.parents_eq hkey]
  have hexposed : sim.Does
      ((g.firstHops options key).foldlM
        (follow g options sources ⟨.logical, table.label, options.strict⟩ g.stepBound [key]) own)
      ((g.firstHops options key).foldlM
        (follow g' options' sources' ⟨.logical, table.label, options'.strict⟩ g'.stepBound [key])
        own) := by
    apply sim.does_foldlM
    intro hop hhop v
    have hdeclares : ∀ {graph : Graph} {o : ResolutionOptions}, hop ∈ graph.firstHops o key →
        graph.declares key = true := by
      intro graph o hmem
      obtain ⟨l, hl, -⟩ := List.mem_map.mp hmem
      exact declares_of_link (List.mem_of_mem_filter (List.mem_of_mem_filter hl))
    have htrail : IsTrail g g' s [key] := by
      refine ⟨List.nodup_singleton key, ?_, ?_, ?_⟩
      · exact List.forall_mem_singleton.mpr hkey
      · exact List.forall_mem_singleton.mpr (hdeclares hhop)
      · rw [firstHops_eq h hoptions.identifierType_eq hkey] at hhop
        exact List.forall_mem_singleton.mpr (hdeclares hhop)
    apply follow_does sim h hoptions htables (leadsWithin_of_mem_firstHops h hkey hhop) htrail
    · unfold stepBound
      omega
    · unfold stepBound
      omega
  apply sim.does_bind hexposed
  intro exposed _
  have hparents : sim.Does
      ((g.parents key).foldlM
        (joinParent g options sources ⟨.logical, table.label, options.strict⟩ key) exposed)
      ((g.parents key).foldlM
        (joinParent g' options' sources' ⟨.logical, table.label, options'.strict⟩ key)
        exposed) := by
    apply sim.does_foldlM
    intro parent hparent v
    exact joinParent_does sim h hoptions (h.parent_mem hkey hparent)
      (hviews table htable parent hparent)
  apply sim.does_bind hparents
  intro v _
  exact sim.does_pure _

end Graph

end Construction

namespace Graph

variable {g g' : Graph} {s : Set Key} {o o' : ResolutionOptions} {key : Key}

theorem not_mem_of_table_eq_ok {below : List Key} {table : TableSchema}
    (hbelow : g.StandBelow below key) (htable : g.table o key = .ok table) : key ∉ below := by
  intro hmem
  apply (isTable_of_table_eq_ok htable).acyclic
  exact ⟨key, Relation.ReflTransGen.refl, hbelow.inherit key hmem⟩

theorem viewWithin_congr {below : List Key} {steps steps' : Nat} (hbelow : g.StandBelow below key)
    (hsteps : g.size < steps + below.length) (hsteps' : g.size < steps' + below.length) :
    g.viewWithin o steps key = g.viewWithin o steps' key := by
  induction steps generalizing steps' below key with
  | zero =>
      have hle := hbelow.length_le_size
      omega
  | succ steps ih =>
      cases steps' with
      | zero =>
          have hle := hbelow.length_le_size
          omega
      | succ steps' =>
          apply viewFrom_does Simulation.equality (AgreesOn.refl g) (OptionsAlike.refl _ o)
            (Set.mem_univ key)
          · exact fun k _ => rfl
          · intro table htable parent hparent
            apply ih (hbelow.append (not_mem_of_table_eq_ok hbelow htable) hparent)
            · rw [List.length_append, List.length_singleton]
              omega
            · rw [List.length_append, List.length_singleton]
              omega

theorem viewWithin_eq_view {below : List Key} {steps : Nat} (hbelow : g.StandBelow below key)
    (hsteps : g.size < steps + below.length) : g.viewWithin o steps key = g.view o key := by
  apply viewWithin_congr hbelow hsteps
  unfold stepBound
  omega

/-- A view is made from the views of its parents, as they are on their own. -/
theorem view_eq_viewFrom (g : Graph) (o : ResolutionOptions) (key : Key) :
    g.view o key = g.viewFrom o ⟨g.table o, g.view o⟩ key := by
  apply viewFrom_does Simulation.equality (AgreesOn.refl g) (OptionsAlike.refl _ o)
    (Set.mem_univ key)
  · exact fun k _ => rfl
  · intro table htable parent hparent
    apply viewWithin_eq_view (StandBelow.nil.append List.not_mem_nil hparent)
    exact Nat.lt_succ_self g.size

/-- What makes the views of terms, one inside the other, makes the views of an agreeing graph, if it
makes each of them from what it has made of the parents. -/
theorem viewWithin_does {m : Type → Type} [Monad m] [MonadLiftT (Except ResolutionError) m]
    (sim : Simulation m) {table : Key → m TableSchema} {view : Nat → Key → m ViewSchema}
    (h : g.AgreesOn g' s) (hoptions : OptionsAlike sim o o')
    (htables : ∀ k ∈ s, sim.Does (table k) (g'.table o' k))
    (hviews : ∀ steps k, sim.Does (g.viewFrom o ⟨table, view steps⟩ k) (g'.view o' k) →
      sim.Does (view (steps + 1) k) (g'.view o' k))
    (hkey : key ∈ s) {below : List Key} {steps : Nat} (hbelow : g.StandBelow below key)
    (hsteps : g.size < steps + below.length) : sim.Does (view steps key) (g'.view o' key) := by
  induction steps generalizing below key with
  | zero =>
      have hle := hbelow.length_le_size
      omega
  | succ steps ih =>
      apply hviews
      rw [view_eq_viewFrom]
      apply viewFrom_does sim h hoptions hkey
      · exact htables
      · intro found hfound parent hparent
        have htable : g.table o' key = .ok found := (h.table_eq o' hkey).trans hfound
        apply ih (h.parent_mem hkey hparent)
          (hbelow.append (not_mem_of_table_eq_ok hbelow htable) hparent)
        rw [List.length_append, List.length_singleton]
        omega

theorem AgreesOn.view_eq (h : g.AgreesOn g' s) (o : ResolutionOptions) (hkey : key ∈ s) :
    g.view o key = g'.view o key := by
  apply viewWithin_does Simulation.equality h (OptionsAlike.refl _ o)
  · exact fun k hk => h.table_eq o hk
  · exact fun _ _ hview => hview
  · exact hkey
  · exact StandBelow.nil
  · exact Nat.lt_succ_self g.size

end Graph

end Glossary
