import Glossary.Proofs.Memory
import Glossary.Proofs.NestedCalls
import Glossary.Proofs.ReportedCycles

/-!
Resolution ends, whatever cycles the statements of a graph form. The hops that are followed, the
views that are made and the terms that are visited in search of a cycle stand one inside the other
no deeper than there are terms, and the search for ancestors has no more rounds.
-/

namespace Glossary

open Fallible

/-- Steps on a memory may be put together in any way. -/
instance : LawfulMonad Resolution := by
  refine LawfulMonad.mk' Resolution ?_ (fun _ _ => rfl) ?_
  · intro α p
    induction p with
    | done value => rfl
    | failed error => rfl
    | findTable key next ih => exact congrArg (Resolution.findTable key) (funext ih)
    | storeTable key table next ih => exact congrArg (Resolution.storeTable key table) (funext ih)
    | findView key next ih => exact congrArg (Resolution.findView key) (funext ih)
    | storeView key view next ih => exact congrArg (Resolution.storeView key view) (funext ih)
  · intro α β γ p f k
    induction p with
    | done value => rfl
    | failed error => rfl
    | findTable key next ih => exact congrArg (Resolution.findTable key) (funext ih)
    | storeTable key table next ih => exact congrArg (Resolution.storeTable key table) (funext ih)
    | findView key next ih => exact congrArg (Resolution.findView key) (funext ih)
    | storeView key view next ih => exact congrArg (Resolution.storeView key view) (funext ih)

/-- What is done after a resolution matters only for the answers that the memory leads to. -/
theorem Resolution.run_bind_congr {α β : Type} {p : Resolution α} {f f' : α → Resolution β}
    {memory : Memory} (h : ∀ a, (p.run memory).1 = .ok a → f a = f' a) :
    (p.bind f).run memory = (p.bind f').run memory := by
  induction p generalizing memory with
  | done value =>
      have heq : f value = f' value := h value rfl
      simp only [bind, heq]
  | failed error => rfl
  | findTable key next ih => exact ih _ h
  | storeTable key table next ih => exact ih _ h
  | findView key next ih => exact ih _ h
  | storeView key view next ih => exact ih _ h

/-- A hop that is followed, and the terms that were reached by hops before. -/
structure FollowCall where
  path : List Key
  hop : Hop

/-- A term that is visited in search of a cycle, and the terms that led to it. -/
structure Visit where
  path : List Key
  key : Key

namespace Graph

section Following

variable {m : Type → Type} [Monad m] [MonadLiftT (Except ResolutionError) m]

/-- Following a hop, when the hops behind it are followed as given. -/
def followOnce (g : Graph) (options : ResolutionOptions) (sources : Sources m) (o : Occasion)
    (answer : FollowCall → ViewDraft → m ViewDraft) (c : FollowCall) (v : ViewDraft) :
    m ViewDraft :=
  if c.hop.target ∈ c.path then
    liftM (m := Except ResolutionError)
      (.error (.cyclicComposition o.label (g.labels (cycleAt c.path c.hop.target))))
  else do
    let (joined, standing) ← joinTables g sources o v
      (c.hop :: (g.ancestors c.hop.target).map (g.ancestorHop options c.hop v.nextAlias))
    (standing.flatMap (g.furtherHops options c.hop.isOptional)).foldlM
      (fun w hop => answer ⟨c.path ++ [c.hop.target], hop⟩ w) joined

/-- Following a hop to a term that has not been reached calls for the hops to what the term or one
of its ancestors must have. -/
structure FollowCalls (g : Graph) (options : ResolutionOptions) (c d : FollowCall) : Prop where
  unreached : c.hop.target ∉ c.path
  path_eq : d.path = c.path ++ [c.hop.target]
  needed : ∃ owner aliasName, owner ∈ c.hop.target :: g.ancestors c.hop.target ∧
    d.hop ∈ g.furtherHops options c.hop.isOptional (owner, aliasName)

theorem joinTables_bind_congr [LawfulMonad m] {g : Graph} {sources : Sources m} {o : Occasion}
    {β : Type} {f f' : ViewDraft × List (Key × String) → m β} {v : ViewDraft} {hops : List Hop}
    (h : ∀ last standing, standing.map Prod.fst = hops.map Hop.target →
      f (last, standing) = f' (last, standing)) :
    joinTables g sources o v hops >>= f = joinTables g sources o v hops >>= f' := by
  induction hops generalizing v f f' with
  | nil =>
      rw [joinTables, pure_bind, pure_bind]
      exact h v [] rfl
  | cons hop hops ih =>
      simp only [joinTables, bind_assoc, pure_bind]
      congr 1
      funext next
      apply ih
      intro last standing hstanding
      exact h last ((hop.target, v.nextAlias) :: standing) (congrArg (hop.target :: ·) hstanding)

theorem followOnce_congr [LawfulMonad m] {g : Graph} {options : ResolutionOptions}
    {sources : Sources m} {o : Occasion} {answer answer' : FollowCall → ViewDraft → m ViewDraft}
    {c : FollowCall} (h : ∀ d, g.FollowCalls options c d → answer d = answer' d) :
    g.followOnce options sources o answer c = g.followOnce options sources o answer' c := by
  funext v
  unfold followOnce
  split
  · rfl
  · rename_i hfresh
    -- which draft comes out of the joins does not matter, only which terms stand at the aliases
    apply joinTables_bind_congr
    intro joined standing hstanding
    apply foldlM_congr
    intro next hnext w
    obtain ⟨⟨owner, aliasName⟩, howner, hnext⟩ := List.mem_flatMap.mp hnext
    have hmem : owner ∈ standing.map Prod.fst := List.mem_map_of_mem howner
    have howner' : owner ∈ c.hop.target :: g.ancestors c.hop.target := by
      rw [hstanding] at hmem
      simpa [ancestorHop, Function.comp_def] using hmem
    rw [h ⟨c.path ++ [c.hop.target], next⟩ ⟨hfresh, rfl, owner, aliasName, howner', hnext⟩]

/-- Only tables are asked for where hops lead. -/
theorem joinTables_congr {g : Graph} {table : Key → m TableSchema} (w w' : Key → m ViewSchema)
    {o : Occasion} (hops : List Hop) (v : ViewDraft) :
    joinTables g ⟨table, w⟩ o v hops = joinTables g ⟨table, w'⟩ o v hops := by
  have htable : joinTable g ⟨table, w⟩ o = joinTable g ⟨table, w'⟩ o := rfl
  induction hops generalizing v with
  | nil => rfl
  | cons hop hops ih => simp only [joinTables, htable, ih]

theorem follow_congr {g : Graph} {options : ResolutionOptions} {table : Key → m TableSchema}
    (w w' : Key → m ViewSchema) (o : Occasion) (steps : Nat) :
    follow g options ⟨table, w⟩ o steps = follow g options ⟨table, w'⟩ o steps := by
  induction steps with
  | zero => rfl
  | succ steps ih =>
      funext path v hop
      simp only [follow, joinTables_congr w w', ih]

/-- How hops are followed. -/
def following [LawfulMonad m] (g : Graph) (options : ResolutionOptions) (sources : Sources m)
    (o : Occasion) : Recursion FollowCall (ViewDraft → m ViewDraft) where
  body := g.followOnce options sources o
  run steps c v := follow g options sources o steps c.path v c.hop
  run_succ _ _ := rfl
  Calls := g.FollowCalls options
  body_congr := followOnce_congr

/-- The call fails at once with the cycle that its path comes round. -/
def FailsToFollow (g : Graph) (options : ResolutionOptions) (sources : Sources m) (o : Occasion)
    (c : FollowCall) : Prop :=
  ∀ steps v, follow g options sources o (steps + 1) c.path v c.hop =
    liftM (m := Except ResolutionError)
      (.error (.cyclicComposition o.label (g.labels (cycleAt c.path c.hop.target))))

def followPath : CallPath FollowCall :=
  ⟨FollowCall.path, fun c => c.hop.target⟩

variable [LawfulMonad m] {g : Graph} {options : ResolutionOptions} {sources : Sources m}
  {o : Occasion} {key : Key}

theorem followPath_isKeptBy (g : Graph) (options : ResolutionOptions) (sources : Sources m)
    (o : Occasion) : followPath.IsKeptBy (g.following options sources o) where
  fresh h := h.unreached
  path_eq h := h.path_eq

theorem exists_followCalls_iff {c : FollowCall} {target : Key} :
    (∃ d, g.FollowCalls options c d ∧ d.hop.target = target) ↔
      c.hop.target ∉ c.path ∧ g.MustHave c.hop.target target := by
  constructor
  · rintro ⟨d, ⟨hfresh, -, owner, aliasName, howner, hhop⟩, htarget⟩
    refine ⟨hfresh, owner, eq_or_mem_ancestors_iff.mp (List.mem_cons.mp howner), ?_⟩
    exact (exists_mem_furtherHops_iff options c.hop.isOptional (owner, aliasName)).mp
      ⟨d.hop, hhop, htarget⟩
  · rintro ⟨hfresh, owner, howner, hrequired⟩
    obtain ⟨next, hnext, htarget⟩ :=
      (exists_mem_furtherHops_iff options c.hop.isOptional (owner, baseAlias)).mpr hrequired
    refine ⟨⟨c.path ++ [c.hop.target], next⟩, ⟨hfresh, rfl, owner, baseAlias, ?_, hnext⟩, htarget⟩
    exact List.mem_cons.mpr (eq_or_mem_ancestors_iff.mpr howner)

theorem FollowCalls.declares {c d : FollowCall} (h : g.FollowCalls options c d) :
    g.declares d.hop.target = true :=
  declares_of_isEntity (exists_followCalls_iff.mp ⟨d, h, rfl⟩).2.isEntity

theorem following_endsWithin {hop : Hop} (hhop : hop ∈ g.firstHops options key) :
    followPath.EndsWithin (g.following options sources o) (g.FailsToFollow options sources o)
      ⟨[key], hop⟩ g.size := by
  have hhas : g.Has key hop.target := has_iff_exists_mem_firstHops.mpr ⟨hop, hhop, rfl⟩
  apply (followPath_isKeptBy g options sources o).endsWithin
  · exact fun c hback steps v => if_pos hback
  · exact List.nodup_singleton key
  · intro calls hnest hnodup
    have htargets : ∀ d ∈ ⟨[key], hop⟩ :: calls, g.declares d.hop.target = true :=
      hnest.forall (declares_of_isEntity hhas.isEntity) FollowCalls.declares
    have hdeclared : ∀ k ∈ [key] ++ (⟨[key], hop⟩ :: calls).dropLast.map followPath.key,
        g.declares k = true := by
      refine List.forall_mem_append.mpr ⟨List.forall_mem_singleton.mpr hhas.declares, ?_⟩
      exact List.forall_mem_map.mpr fun d hd => htargets d (List.mem_of_mem_dropLast hd)
    simpa [followPath, Nat.add_comm] using length_le_size hnodup hdeclared

end Following

section Viewing

variable {g : Graph} {options : ResolutionOptions} {a b c key : Key}

/-- The view of a term whose table could be made calls for the views of its parents. -/
structure ViewCalls (g : Graph) (options : ResolutionOptions) (key parent : Key) : Prop where
  table : ∃ t, g.table options key = .ok t
  inherits : g.Inherits key parent

theorem viewFrom_congr {w w' : Key → Except ResolutionError ViewSchema}
    (h : ∀ parent, g.ViewCalls options key parent → w parent = w' parent) :
    g.viewFrom options ⟨g.table options, w⟩ key =
      g.viewFrom options ⟨g.table options, w'⟩ key := by
  apply viewFrom_does Simulation.equality (AgreesOn.refl g) (OptionsAlike.refl _ options)
    (Set.mem_univ key)
  · exact fun k _ => rfl
  · exact fun table htable parent hparent => h parent ⟨⟨table, htable⟩, hparent⟩

/-- On a memory, too, no other views are called for. -/
theorem run_viewFrom_congr {memory : Memory} (hmemory : memory.Faithful g options)
    {w w' : Key → Resolution ViewSchema}
    (h : ∀ parent, g.ViewCalls options key parent → w parent = w' parent) :
    (g.viewFrom options ⟨Resolution.table g options, w⟩ key).run memory =
      (g.viewFrom options ⟨Resolution.table g options, w'⟩ key).run memory := by
  apply Resolution.run_bind_congr
  intro t ht
  rw [((Resolution.yields_table g options key).run hmemory).1] at ht
  have hparents : ∀ (o : Occasion) (v : ViewDraft),
      (g.parents key).foldlM (joinParent g options ⟨Resolution.table g options, w⟩ o key) v =
        (g.parents key).foldlM (joinParent g options ⟨Resolution.table g options, w'⟩ o key) v := by
    intro o v
    apply foldlM_congr
    intro parent hparent v
    simp only [joinParent, h parent ⟨⟨t, ht⟩, hparent⟩]
  simp only [follow_congr w w', hparents]

/-- How views are made. -/
def viewing (g : Graph) (options : ResolutionOptions) :
    Recursion Key (Except ResolutionError ViewSchema) where
  body w := g.viewFrom options ⟨g.table options, w⟩
  run := g.viewWithin options
  run_succ _ _ := rfl
  Calls := g.ViewCalls options
  body_congr := viewFrom_congr

/-- The term `a` inherits from `b`, which does not lead back to it. -/
def InheritsStrictly (g : Graph) (a b : Key) : Prop :=
  Relation.TransGen g.Inherits a b ∧ ¬ Relation.ReflTransGen g.Inherits b a

theorem InheritsStrictly.trans (hab : g.InheritsStrictly a b) (hbc : g.InheritsStrictly b c) :
    g.InheritsStrictly a c :=
  ⟨hab.1.trans hbc.1, fun hback => hbc.2 (hback.trans hab.1.to_reflTransGen)⟩

instance : Trans g.InheritsStrictly g.InheritsStrictly g.InheritsStrictly where
  trans := InheritsStrictly.trans

theorem ViewCalls.inheritsStrictly (h : g.ViewCalls options a b) : g.InheritsStrictly a b := by
  obtain ⟨t, ht⟩ := h.table
  refine ⟨.single h.inherits, fun hback => (isTable_of_table_eq_ok ht).acyclic ?_⟩
  exact ⟨a, .refl, .head' h.inherits hback⟩

theorem pairwise_inheritsStrictly {keys : List Key} (h : (g.viewing options).Nest key keys) :
    (key :: keys).Pairwise g.InheritsStrictly :=
  (List.IsChain.imp (fun _ _ hcall => ViewCalls.inheritsStrictly hcall) h).pairwise

theorem InheritsStrictly.ne (h : g.InheritsStrictly a b) : a ≠ b := by
  rintro rfl
  exact h.2 .refl

theorem length_le_size_of_nest {keys : List Key} (h : (g.viewing options).Nest key keys) :
    keys.length ≤ g.size := by
  have hnodup : (key :: keys).Nodup := (pairwise_inheritsStrictly h).imp InheritsStrictly.ne
  have hle := length_le_size (hnodup.sublist (List.dropLast_sublist _)) fun k hk => by
    obtain ⟨parent, hcall⟩ := h.exists_calls k hk
    exact declares_of_inherits hcall.inherits
  simpa using hle

end Viewing

section Visiting

variable {g : Graph}

/-- Visiting a term, when its parents are visited as given. -/
def visitOnce (g : Graph) (root : Key)
    (answer : Visit → List Key → Except ResolutionError (List Key)) (c : Visit)
    (done : List Key) : Except ResolutionError (List Key) :=
  if c.key ∈ c.path then
    .error (.cyclicInheritance (g.label root) (g.labels (cycleAt c.path c.key)))
  else if c.key ∈ done then .ok done
  else do
    let after ← (g.parents c.key).foldlM
      (fun done parent => answer ⟨c.path ++ [c.key], parent⟩ done) done
    return after ++ [c.key]

/-- Visiting a term that does not stand on the path calls for visits to its parents. -/
structure VisitCalls (g : Graph) (c d : Visit) : Prop where
  unvisited : c.key ∉ c.path
  path_eq : d.path = c.path ++ [c.key]
  inherits : g.Inherits c.key d.key

theorem visitOnce_congr {root : Key}
    {answer answer' : Visit → List Key → Except ResolutionError (List Key)} {c : Visit}
    (h : ∀ d, g.VisitCalls c d → answer d = answer' d) :
    g.visitOnce root answer c = g.visitOnce root answer' c := by
  funext done
  unfold visitOnce
  split
  · rfl
  · rename_i hfresh
    have hparents : (g.parents c.key).foldlM
        (fun done parent => answer ⟨c.path ++ [c.key], parent⟩ done) done =
          (g.parents c.key).foldlM
            (fun done parent => answer' ⟨c.path ++ [c.key], parent⟩ done) done := by
      apply foldlM_congr
      intro parent hparent done
      rw [h ⟨c.path ++ [c.key], parent⟩ ⟨hfresh, rfl, hparent⟩]
    rw [hparents]

/-- How terms are visited in search of a cycle. -/
def visiting (g : Graph) (root : Key) :
    Recursion Visit (List Key → Except ResolutionError (List Key)) where
  body := g.visitOnce root
  run steps c done := g.walkParents root steps c.path done c.key
  run_succ _ _ := rfl
  Calls := g.VisitCalls
  body_congr := visitOnce_congr

/-- The visit fails at once with the cycle that its path comes round. -/
def FailsToVisit (g : Graph) (root : Key) (c : Visit) : Prop :=
  ∀ steps done, g.walkParents root (steps + 1) c.path done c.key =
    .error (.cyclicInheritance (g.label root) (g.labels (cycleAt c.path c.key)))

def visitPath : CallPath Visit :=
  ⟨Visit.path, Visit.key⟩

theorem visitPath_isKeptBy (g : Graph) (root : Key) : visitPath.IsKeptBy (g.visiting root) where
  fresh h := h.unvisited
  path_eq h := h.path_eq

theorem visiting_endsWithin (g : Graph) (root : Key) :
    visitPath.EndsWithin (g.visiting root) (g.FailsToVisit root) ⟨[], root⟩ g.stepBound := by
  apply (visitPath_isKeptBy g root).endsWithin
  · exact fun c hback steps done => if_pos hback
  · exact List.nodup_nil
  · intro visits hnest hnodup
    have hdeclared : ∀ k ∈ [] ++ (⟨[], root⟩ :: visits).dropLast.map visitPath.key,
        g.declares k = true := by
      refine List.forall_mem_map.mpr fun c hc => ?_
      obtain ⟨d, hcall⟩ := hnest.exists_calls c hc
      exact declares_of_inherits hcall.inherits
    simpa [visitPath, stepBound] using length_le_size hnodup hdeclared

end Visiting

section Rounds

variable {g : Graph} {key a : Key} {n : Nat}

/-- What a search for ancestors knows: the terms that it has seen, those that it has found, and the
ones to look at next. -/
structure AncestorSearch where
  seen : List Key
  order : List Key
  level : List Key

namespace AncestorSearch

def start (g : Graph) (key : Key) : AncestorSearch :=
  ⟨[key], [], g.parents key⟩

/-- One round: the terms of the level that have not been seen are found, and their parents make the
next level. -/
def round (g : Graph) (s : AncestorSearch) : AncestorSearch where
  seen := s.seen ++ unseen s.seen s.level
  order := s.order ++ unseen s.seen s.level
  level := (unseen s.seen s.level).flatMap g.parents

/-- The search after a number of rounds. -/
def after (g : Graph) (key : Key) (n : Nat) : AncestorSearch :=
  (round g)^[n] (start g key)

theorem after_succ (g : Graph) (key : Key) (n : Nat) :
    after g key (n + 1) = round g (after g key n) :=
  Function.iterate_succ_apply' ..

theorem frontier_after (g : Graph) (key : Key) (n : Nat) :
    g.Frontier key (n + 1) (after g key n).seen (after g key n).level := by
  induction n with
  | zero => exact frontier_one g key
  | succ n ih =>
      rw [after_succ]
      exact ih.next

theorem exists_child_of_mem_level (h : a ∈ (after g key n).level) :
    ∃ k, g.IsAtDistance key n k ∧ g.Inherits k a := by
  cases n with
  | zero => exact ⟨key, ⟨List.mem_singleton_self key, by simp⟩, h⟩
  | succ n =>
      rw [after_succ] at h
      obtain ⟨k, hk, hparent⟩ := List.mem_flatMap.mp h
      exact ⟨k, (frontier_after g key n).mem_unseen_iff_isAtDistance.mp hk, hparent⟩

/-- While there are terms to look at, every round so far has found a declared term. -/
theorem lt_size_of_mem_level (h : a ∈ (after g key n).level) : n < g.size := by
  obtain ⟨k, hk, hparent⟩ := exists_child_of_mem_level h
  obtain ⟨keys, hlength, hnodup, hkeys⟩ := hk.exists_declared
  have hfresh : k ∉ keys := by
    intro hmem
    obtain ⟨-, m, hm, hnear⟩ := hkeys k hmem
    exact absurd (hnear.unique hk) (Nat.ne_of_lt hm)
  have hle : (k :: keys).length ≤ g.size := by
    apply length_le_size (List.nodup_cons.mpr ⟨hfresh, hnodup⟩)
    exact List.forall_mem_cons.mpr ⟨declares_of_inherits hparent, fun a ha => (hkeys a ha).1⟩
  rwa [List.length_cons, hlength] at hle

theorem ancestorLevels_nil (g : Graph) (steps : Nat) (seen : List Key) :
    g.ancestorLevels steps seen [] = [] := by
  cases steps with
  | zero => rfl
  | succ steps => rfl

theorem order_append_ancestorLevels (g : Graph) (s : AncestorSearch) (steps : Nat) :
    s.order ++ (g.ancestorLevels (steps + 1) s.seen s.level).flatten =
      (round g s).order ++
        (g.ancestorLevels steps (round g s).seen (round g s).level).flatten := by
  rw [ancestorLevels_succ]
  split
  · rename_i hnil
    simp [round, hnil, ancestorLevels_nil]
  · simp [round]

/-- What has been found, and what is still to be found with the steps that are left. -/
theorem ancestors_eq_order_append (h : n ≤ g.stepBound) :
    g.ancestors key = (after g key n).order ++
      (g.ancestorLevels (g.stepBound - n) (after g key n).seen (after g key n).level).flatten := by
  induction n with
  | zero => rfl
  | succ n ih =>
      obtain ⟨steps, hsteps⟩ := Nat.exists_eq_add_of_le h
      have hn : g.stepBound - n = steps + 1 := by omega
      have hsucc : g.stepBound - (n + 1) = steps := by omega
      rw [ih (Nat.le_of_succ_le h), hn, hsucc, order_append_ancestorLevels, after_succ]

theorem exists_after_level_eq_nil (g : Graph) (key : Key) :
    ∃ n ≤ g.size, (after g key n).level = [] ∧ (after g key n).order = g.ancestors key ∧
      ∀ m < n, (after g key m).level ≠ [] := by
  classical
  have hlast : (after g key g.size).level = [] := by
    apply List.eq_nil_iff_forall_not_mem.mpr
    exact fun a ha => absurd (lt_size_of_mem_level ha) (Nat.lt_irrefl g.size)
  let hexists : ∃ n, (after g key n).level = [] := ⟨g.size, hlast⟩
  have hlevel : (after g key (Nat.find hexists)).level = [] := Nat.find_spec hexists
  have hle : Nat.find hexists ≤ g.size := Nat.find_min' hexists hlast
  refine ⟨Nat.find hexists, hle, hlevel, ?_, fun m hm => Nat.find_min hexists hm⟩
  rw [ancestors_eq_order_append (Nat.le_succ_of_le hle), hlevel, ancestorLevels_nil,
    List.flatten_nil, List.append_nil]

end AncestorSearch

end Rounds

/-- The view of a term is made, or an error is reported, in finitely many steps, and a memory makes
no difference. Hops stand one inside the other along distinct terms until one fails, views along
terms that inherit one from the other, and visits along distinct terms until one fails; and the
search for ancestors has no more rounds than there are terms. -/
structure ResolutionEnds (g : Graph) (options : ResolutionOptions) (key : Key) : Prop where
  reported : ∀ e, g.view options key = .error e → e.IsReported
  remembered : ∀ memory : Memory, memory.Faithful g options → ∀ steps ≥ g.stepBound,
    ((Resolution.viewWithin g options steps key).run memory).1 = g.view options key
  hops_end : ∀ {m : Type → Type} [Monad m] [LawfulMonad m]
    [MonadLiftT (Except ResolutionError) m] (sources : Sources m) (o : Occasion),
    ∀ hop ∈ g.firstHops options key, followPath.EndsWithin (g.following options sources o)
      (g.FailsToFollow options sources o) ⟨[key], hop⟩ g.size
  views_settle : (g.viewing options).SettlesAt key g.stepBound
  views_descend : ∀ keys, (g.viewing options).Nest key keys →
    (key :: keys).IsChain g.Inherits ∧ (key :: keys).Pairwise g.InheritsStrictly ∧
      keys.length ≤ g.size
  views_remembered : ∀ memory : Memory, memory.Faithful g options →
    ∀ w w' : Key → Resolution ViewSchema,
      (∀ parent, g.ViewCalls options key parent → w parent = w' parent) →
        (g.viewFrom options ⟨Resolution.table g options, w⟩ key).run memory =
          (g.viewFrom options ⟨Resolution.table g options, w'⟩ key).run memory
  visits_end : visitPath.EndsWithin (g.visiting key) (g.FailsToVisit key) ⟨[], key⟩ g.stepBound
  rounds_end : ∃ n ≤ g.size, (AncestorSearch.after g key n).level = [] ∧
    (AncestorSearch.after g key n).order = g.ancestors key ∧
      ∀ m < n, (AncestorSearch.after g key m).level ≠ []

/-- Nothing is asked of the graph: any cycles may run through its statements. -/
theorem resolution_ends (g : Graph) (options : ResolutionOptions) (key : Key) :
    g.ResolutionEnds options key where
  reported _ h := view_reported h
  remembered _ hmemory _ hsteps :=
    ((Resolution.yields_viewWithin_of_size_lt hsteps key).run hmemory).1
  hops_end _ _ _ hhop := following_endsWithin hhop
  views_settle := Recursion.settlesAt_of_nests fun _ hnest =>
    Nat.lt_succ_of_le (length_le_size_of_nest hnest)
  views_descend _ hnest := ⟨List.IsChain.imp (fun _ _ hcall => hcall.inherits) hnest,
    pairwise_inheritsStrictly hnest, length_le_size_of_nest hnest⟩
  views_remembered _ hmemory _ _ hcalls := run_viewFrom_congr hmemory hcalls
  visits_end := visiting_endsWithin g key
  rounds_end := AncestorSearch.exists_after_level_eq_nil g key

end Graph

/-- From the desk, hops lead to an employee, to the manager whom an employee must have, and to the
manager again, who is an employee; there they end. -/
theorem snarled_desk_ends :
    ∃ (sources : Sources Resolution) (o : Occasion) (hop : Hop) (next last : FollowCall),
      hop ∈ snarled.firstHops .standard "desk" ∧
      (snarled.following .standard sources o).Nest ⟨["desk"], hop⟩ [next, last] ∧
      [⟨["desk"], hop⟩, next, last].map Graph.followPath.key =
        ["employee", "manager", "manager"] ∧
      snarled.FailsToFollow .standard sources o last := by
  have hdesk : snarled.Has "desk" "employee" := by
    unfold Graph.Has
    decide +kernel
  have hrequired : ∃ l ∈ snarled.requirements "employee",
      l.target = "manager" ∧ snarled.isEntity "manager" = true := by
    decide +kernel
  have hinherits : snarled.Inherits "manager" "employee" := by
    unfold Graph.Inherits
    decide +kernel
  let sources : Sources Resolution :=
    ⟨Resolution.table snarled .standard, Resolution.view snarled .standard⟩
  let o : Occasion := ⟨.logical, "Desk", false⟩
  obtain ⟨hop, hhop, htarget⟩ : ∃ hop ∈ snarled.firstHops .standard "desk",
      hop.target = "employee" := Graph.has_iff_exists_mem_firstHops.mp hdesk
  obtain ⟨next, hnext, htarget'⟩ : ∃ d, snarled.FollowCalls .standard ⟨["desk"], hop⟩ d ∧
      d.hop.target = "manager" := by
    rw [Graph.exists_followCalls_iff, htarget]
    exact ⟨by simp, "employee", .refl, hrequired⟩
  obtain ⟨last, hlast, htarget''⟩ : ∃ d, snarled.FollowCalls .standard next d ∧
      d.hop.target = "manager" := by
    rw [Graph.exists_followCalls_iff, htarget', hnext.path_eq, htarget]
    exact ⟨by simp, "employee", .single hinherits, hrequired⟩
  have hkeys : [⟨["desk"], hop⟩, next, last].map Graph.followPath.key =
      ["employee", "manager", "manager"] := by
    simp [Graph.followPath, htarget, htarget', htarget'']
  have hnest : (snarled.following .standard sources o).Nest ⟨["desk"], hop⟩ [next, last] :=
    .cons hnext (.cons hlast .nil)
  have hends := (Graph.resolution_ends snarled .standard "desk").hops_end sources o hop hhop
  have hagain : ¬ (["desk"] ++ ([⟨["desk"], hop⟩, next] ++ [last]).map
      Graph.followPath.key).Nodup := by
    simp [Graph.followPath, htarget', htarget'']
  exact ⟨sources, o, hop, next, last, hhop, hnest, hkeys,
    (hends.distinct [next, last] hnest).ends_last hagain⟩

end Glossary
