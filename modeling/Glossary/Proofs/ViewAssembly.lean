import Std.Data.String.ToNat
import Glossary.Proofs.ViewSimulation

/-!
A view is its table with attachments, one for each join. What is attached, and in which order,
follows from the statements of the graph alone; the columns are contributed afterwards, all at once.
-/

namespace Glossary

open Fallible

/-- The alias of the `n`-th table or view in a view. The base table comes before the first. -/
def aliasAt (n : Nat) : String :=
  "t" ++ toString n

theorem aliasAt_zero : aliasAt 0 = baseAlias :=
  rfl

theorem aliasAt_inj {m n : Nat} : aliasAt m = aliasAt n ↔ m = n := by
  unfold aliasAt
  constructor
  · intro h
    exact Nat.repr_injective ((String.append_right_inj "t").mp h)
  · rintro rfl
    rfl

/-- What one step adds to a view: a join, the columns that it shows, and the view it embeds. -/
structure Attachment where
  join : Join
  columns : List ViewColumn
  embedded : Option ViewSchema

/-- The columns of the base table of a view, as the view shows them. -/
def TableSchema.baseColumns (t : TableSchema) : List ViewColumn :=
  t.columns.map fun c => c.shownBy baseAlias t.label false

/-- All columns that are contributed to a view, in order. -/
def viewContributions (t : TableSchema) (as : List Attachment) : List ViewColumn :=
  t.baseColumns ++ as.flatMap Attachment.columns

/-- The term that stands at the alias of an attachment. -/
def Attachment.standing (a : Attachment) : Key × String :=
  (a.join.target, a.join.aliasName)

namespace ViewDraft

def attach (o : Occasion) (v : ViewDraft) (a : Attachment) : Except ResolutionError ViewDraft :=
  addColumns o { v with
    joins := v.joins ++ [a.join]
    ancestors := v.ancestors ++ a.embedded.toList } a.columns

def attachAll (o : Occasion) (v : ViewDraft) (as : List Attachment) :
    Except ResolutionError ViewDraft :=
  as.foldlM (attach o) v

variable {o : Occasion} {v v' : ViewDraft}

theorem addColumns_eq_ok {columns : List ViewColumn} (h : v.addColumns o columns = .ok v') :
    v.toDraft.addAll ViewColumn.toColumn o columns = .ok v'.toDraft ∧ v'.joins = v.joins ∧
      v'.ancestors = v.ancestors := by
  obtain ⟨d, hd, h⟩ := bind_eq_ok_iff.mp h
  obtain rfl := Except.ok.inj h
  exact ⟨hd, rfl, rfl⟩

/-- Columns that are contributed attachment by attachment might as well come all at once. -/
theorem attachAll_eq_ok {as : List Attachment} (h : v.attachAll o as = .ok v') :
    v.toDraft.addAll ViewColumn.toColumn o (as.flatMap Attachment.columns) = .ok v'.toDraft ∧
      v'.joins = v.joins ++ as.map Attachment.join ∧
      v'.ancestors = v.ancestors ++ as.flatMap fun a => a.embedded.toList := by
  induction as generalizing v with
  | nil =>
      obtain rfl := Except.ok.inj h
      simp [Draft.addAll, pure, Except.pure]
  | cons a as ih =>
      obtain ⟨u, hattach, hrest⟩ := foldlM_cons_eq_ok_iff.mp h
      obtain ⟨hdraft, hjoins, hancestors⟩ := addColumns_eq_ok hattach
      obtain ⟨hdraft', hjoins', hancestors'⟩ := ih hrest
      refine ⟨?_, ?_, ?_⟩
      · rw [List.flatMap_cons]
        exact foldlM_append_eq_ok_iff.mpr ⟨u.toDraft, hdraft, hdraft'⟩
      · simp [hjoins', hjoins]
      · simp [hancestors', hancestors]

end ViewDraft

namespace Graph

/-- The table that a hop leads to, joined after `n` other joins. -/
def tableAttachment (g : Graph) (n : Nat) (hop : Hop) (table : TableSchema) : Attachment where
  join := {
    aliasName := aliasAt (n + 1)
    relation := hop.relation
    source := .table
    table := table.table
    target := hop.target
    targetLabel := table.label
    parentAlias := hop.parentAlias
    parentTerm := hop.parent
    parentLabel := g.label hop.parent
    fkColumn := hop.fkColumn
    keyColumn := (table.identifier?.map Column.name).getD ""
    kind := if hop.isOptional then .left else .inner }
  columns := table.columns.map fun c => c.shownBy (aliasAt (n + 1)) table.label hop.isOptional
  embedded := none

/-- The view of a parent, or its bare table, joined after `n` other joins. -/
def parentAttachment (g : Graph) (o : ResolutionOptions) (key : Key) (n : Nat) (parent : Key)
    (ancestor : ViewSchema) : Attachment where
  join := {
    aliasName := aliasAt (n + 1)
    relation := .inherits
    source := if ancestor.joins.isEmpty then .table else .view
    table := if ancestor.joins.isEmpty then ancestor.baseTable else ancestor.view
    target := parent
    targetLabel := ancestor.label
    parentAlias := baseAlias
    parentTerm := key
    parentLabel := g.label key
    fkColumn := (g.identifierColumn o parent).name
    keyColumn := (ancestor.identifier?.map fun c => c.name).getD ""
    kind := .inner }
  columns := ancestor.columns.map fun c => c.shownBy (aliasAt (n + 1)) ancestor.label
  embedded := if ancestor.joins.isEmpty then none else some ancestor

/-- The hops that join a target and each of its ancestors straight from it. -/
def arrivalHops (g : Graph) (o : ResolutionOptions) (n : Nat) (hop : Hop) : List Hop :=
  hop :: (g.ancestors hop.target).map (g.ancestorHop o hop (aliasAt (n + 1)))

/-- The hops to what the terms that have been joined must have. -/
def onwardHops (g : Graph) (o : ResolutionOptions) (hop : Hop) (tables : List Attachment) :
    List Hop :=
  tables.flatMap fun a => g.furtherHops o hop.isOptional a.standing

/-- The tables that hops lead to, joined one after the other after `n` other joins. -/
inductive TablesJoined (g : Graph) (o : ResolutionOptions) :
    Nat → List Hop → List Attachment → Prop
  | nil (n : Nat) : TablesJoined g o n [] []
  | cons {n : Nat} {hop : Hop} {rest : List Hop} {table : TableSchema} {as : List Attachment} :
      g.table o hop.target = .ok table → TablesJoined g o (n + 1) rest as →
      TablesJoined g o n (hop :: rest) (g.tableAttachment n hop table :: as)

/-- What is attached when hops are followed after `n` other joins, with the terms of `path` on the
way: for each hop the arrival, then all that lies beyond it. -/
inductive Exposed (g : Graph) (o : ResolutionOptions) :
    List Key → Nat → List Hop → List Attachment → Prop
  | nil (path : List Key) (n : Nat) : Exposed g o path n [] []
  | cons {path : List Key} {n : Nat} {hop : Hop} {rest : List Hop}
      {tables below after : List Attachment} :
      hop.target ∉ path →
      TablesJoined g o n (g.arrivalHops o n hop) tables →
      Exposed g o (path ++ [hop.target]) (n + tables.length) (g.onwardHops o hop tables) below →
      Exposed g o path (n + tables.length + below.length) rest after →
      Exposed g o path n (hop :: rest) (tables ++ below ++ after)

/-- The parents of a term, joined one after the other after `n` other joins. -/
inductive ParentsJoined (g : Graph) (o : ResolutionOptions) (key : Key) :
    Nat → List Key → List Attachment → Prop
  | nil (n : Nat) : ParentsJoined g o key n [] []
  | cons {n : Nat} {parent : Key} {rest : List Key} {ancestor : ViewSchema}
      {as : List Attachment} :
      g.view o parent = .ok ancestor → ParentsJoined g o key (n + 1) rest as →
      ParentsJoined g o key n (parent :: rest) (g.parentAttachment o key n parent ancestor :: as)

/-- The parts of a view: its table, what is exposed by the things that it has, and its parents. -/
structure Assembles (g : Graph) (o : ResolutionOptions) (key : Key) (table : TableSchema)
    (exposed parents : List Attachment) (v : ViewSchema) : Prop where
  table_eq_ok : g.table o key = .ok table
  exposed_of : g.Exposed o [key] 0 (g.firstHops o key) exposed
  parents_of : g.ParentsJoined o key exposed.length (g.parents key) parents
  columns_of : Draft.addAll ViewColumn.toColumn ⟨.logical, table.label, o.strict⟩
    ⟨[], table.issues⟩ (viewContributions table (exposed ++ parents)) = .ok ⟨v.columns, v.issues⟩
  joins_eq : v.joins = (exposed ++ parents).map Attachment.join
  ancestors_eq : v.ancestors = (exposed ++ parents).flatMap fun a => a.embedded.toList
  term_eq : v.term = key
  label_eq : v.label = table.label
  view_eq : v.view = Name.view table.label
  baseTable_eq : v.baseTable = table.table
  baseAlias_eq : v.baseAlias = baseAlias

variable {g : Graph} {options : ResolutionOptions} {o : Occasion} {key : Key}
  {w : Key → Except ResolutionError ViewSchema} {v v' : ViewDraft}

theorem TablesJoined.map_target {n : Nat} {hops : List Hop} {as : List Attachment}
    (h : g.TablesJoined options n hops as) :
    (as.map fun a => a.join.target) = hops.map Hop.target := by
  induction h with
  | nil => rfl
  | cons _ _ ih => simp [ih, tableAttachment]

theorem TablesJoined.exists_table {n : Nat} {hops : List Hop} {as : List Attachment}
    (h : g.TablesJoined options n hops as) {a : Attachment} (ha : a ∈ as) :
    ∃ m hop table, hop ∈ hops ∧ g.table options hop.target = .ok table ∧
      a = g.tableAttachment m hop table := by
  induction h with
  | nil => cases ha
  | @cons n hop rest table as htable _ ih =>
      rcases List.mem_cons.mp ha with rfl | ha
      · exact ⟨n, hop, table, List.mem_cons_self, htable, rfl⟩
      · obtain ⟨m, hop', table', hhop, htable', heq⟩ := ih ha
        exact ⟨m, hop', table', List.mem_cons_of_mem hop hhop, htable', heq⟩

theorem joinTable_eq_ok {hop : Hop} (h : joinTable g ⟨g.table options, w⟩ o v hop = .ok v') :
    ∃ table, g.table options hop.target = .ok table ∧
      v.attach o (g.tableAttachment v.joins.length hop table) = .ok v' := by
  obtain ⟨table, htable, h⟩ := bind_eq_ok_iff.mp h
  refine ⟨table, htable, ?_⟩
  simp only [ViewDraft.attach, tableAttachment, Option.toList_none, List.append_nil]
  exact h

theorem attach_joins_length {a : Attachment} (h : v.attach o a = .ok v') :
    v'.joins.length = v.joins.length + 1 := by
  simp [(ViewDraft.addColumns_eq_ok h).2.1]

theorem joinTables_eq_ok {hops : List Hop} {standing : List (Key × String)}
    (h : joinTables g ⟨g.table options, w⟩ o v hops = .ok (v', standing)) :
    ∃ as, g.TablesJoined options v.joins.length hops as ∧ standing = as.map Attachment.standing ∧
      v.attachAll o as = .ok v' := by
  induction hops generalizing v standing with
  | nil =>
      obtain ⟨rfl, rfl⟩ := Prod.mk.inj (Except.ok.inj h)
      exact ⟨[], .nil _, rfl, rfl⟩
  | cons hop hops ih =>
      obtain ⟨next, hnext, h⟩ := bind_eq_ok_iff.mp h
      obtain ⟨⟨last, rest⟩, hrest, h⟩ := bind_eq_ok_iff.mp h
      obtain ⟨rfl, rfl⟩ := Prod.mk.inj (Except.ok.inj h)
      obtain ⟨table, htable, hattach⟩ := joinTable_eq_ok hnext
      obtain ⟨as, hjoined, rfl, has⟩ := ih hrest
      rw [attach_joins_length hattach] at hjoined
      exact ⟨_, .cons htable hjoined, rfl, foldlM_cons_eq_ok_iff.mpr ⟨next, hattach, has⟩⟩

theorem attachAll_joins_length {as : List Attachment} (h : v.attachAll o as = .ok v') :
    v'.joins.length = v.joins.length + as.length := by
  simp [(ViewDraft.attachAll_eq_ok h).2.1]

theorem exists_exposed_of_foldlM_follow {steps : Nat} {path : List Key} {hops : List Hop}
    (h : hops.foldlM (follow g options ⟨g.table options, w⟩ o steps path) v = .ok v') :
    ∃ as, g.Exposed options path v.joins.length hops as ∧ v.attachAll o as = .ok v' := by
  -- on the steps of the walk and, for each number of steps, on the hops that stand side by side
  induction steps generalizing path hops v v' with
  | zero =>
      cases hops with
      | nil => exact ⟨[], .nil _ _, h⟩
      | cons hop hops =>
          obtain ⟨u, hu, -⟩ := foldlM_cons_eq_ok_iff.mp h
          cases hu
  | succ steps ihSteps =>
      induction hops generalizing v with
      | nil => exact ⟨[], .nil _ _, h⟩
      | cons hop hops ihHops =>
          obtain ⟨u, hfollow, hrest⟩ := foldlM_cons_eq_ok_iff.mp h
          rw [follow] at hfollow
          split at hfollow
          · cases hfollow
          · rename_i hfresh
            obtain ⟨⟨joined, standing⟩, hjoin, hfurther⟩ := bind_eq_ok_iff.mp hfollow
            obtain ⟨tables, htables, rfl, hattach⟩ := joinTables_eq_ok hjoin
            simp only [List.flatMap_map] at hfurther
            obtain ⟨below, hbelow, hattachBelow⟩ := ihSteps hfurther
            obtain ⟨after, hafter, hattachAfter⟩ := ihHops hrest
            rw [attachAll_joins_length hattach] at hbelow
            rw [attachAll_joins_length hattachBelow, attachAll_joins_length hattach] at hafter
            refine ⟨tables ++ below ++ after, .cons hfresh htables hbelow hafter, ?_⟩
            refine foldlM_append_eq_ok_iff.mpr ⟨u, ?_, hattachAfter⟩
            exact foldlM_append_eq_ok_iff.mpr ⟨joined, hattach, hattachBelow⟩

theorem joinParent_eq_ok {parent : Key} (hlabel : o.label = g.label key)
    (h : joinParent g options ⟨g.table options, w⟩ o key v parent = .ok v') :
    ∃ ancestor, w parent = .ok ancestor ∧
      v.attach o (g.parentAttachment options key v.joins.length parent ancestor) = .ok v' := by
  obtain ⟨ancestor, hancestor, h⟩ := bind_eq_ok_iff.mp h
  refine ⟨ancestor, hancestor, ?_⟩
  rw [ViewDraft.attach, ← h]
  cases hbare : ancestor.joins.isEmpty
  all_goals
    simp only [parentAttachment, hbare, hlabel, Option.toList_none, Option.toList_some,
      List.append_nil, Bool.false_eq_true, if_true, if_false]
    rfl

theorem exists_parentsJoined_of_foldlM_joinParent {parents : List Key}
    (hlabel : o.label = g.label key)
    (h : parents.foldlM (joinParent g options ⟨g.table options, g.view options⟩ o key) v =
      .ok v') :
    ∃ as, g.ParentsJoined options key v.joins.length parents as ∧
      v.attachAll o as = .ok v' := by
  induction parents generalizing v with
  | nil => exact ⟨[], .nil _, h⟩
  | cons parent parents ih =>
      obtain ⟨next, hnext, hrest⟩ := foldlM_cons_eq_ok_iff.mp h
      obtain ⟨ancestor, hancestor, hattach⟩ := joinParent_eq_ok hlabel hnext
      obtain ⟨as, hjoined, has⟩ := ih hrest
      rw [attach_joins_length hattach] at hjoined
      exact ⟨_, .cons hancestor hjoined, foldlM_cons_eq_ok_iff.mpr ⟨next, hattach, has⟩⟩

/-- A view is assembled from the table of its term, from what the things it has expose, and from
the views of its parents. -/
theorem exists_assembles {s : ViewSchema} (h : g.view options key = .ok s) :
    ∃ table exposed parents, g.Assembles options key table exposed parents s := by
  rw [view_eq_viewFrom] at h
  obtain ⟨table, htable, h⟩ := bind_eq_ok_iff.mp h
  obtain ⟨own, hown, h⟩ := bind_eq_ok_iff.mp h
  obtain ⟨middle, hexposed, h⟩ := bind_eq_ok_iff.mp h
  obtain ⟨last, hparents, h⟩ := bind_eq_ok_iff.mp h
  obtain rfl := Except.ok.inj h
  obtain ⟨hownDraft, hownJoins, hownAncestors⟩ := ViewDraft.addColumns_eq_ok hown
  obtain ⟨exposed, hexposedOf, hattach⟩ := exists_exposed_of_foldlM_follow hexposed
  obtain ⟨parents, hparentsOf, hattach'⟩ := exists_parentsJoined_of_foldlM_joinParent
    (isTable_of_table_eq_ok htable).label_eq hparents
  obtain ⟨hdraft, hjoins, hancestors⟩ := ViewDraft.attachAll_eq_ok
    (foldlM_append_eq_ok_iff.mpr ⟨middle, hattach, hattach'⟩)
  rw [attachAll_joins_length hattach] at hparentsOf
  simp only [hownJoins, List.length_nil, Nat.zero_add] at hexposedOf hparentsOf
  refine ⟨table, exposed, parents, htable, hexposedOf, hparentsOf, ?_, ?_, ?_, rfl, rfl, rfl, rfl,
    rfl⟩
  · exact foldlM_append_eq_ok_iff.mpr ⟨own.toDraft, hownDraft, hdraft⟩
  · simpa [hownJoins] using hjoins
  · simpa [hownAncestors] using hancestors

end Graph

/-- A small dictionary to resolve terms in. -/
def staffTerms : List Term := [
  ⟨"Site", "A place of work.", none, none, [], none⟩,
  ⟨"Department", "A part of the firm.", none, none,
    [⟨.requires, "Department", "Site", none⟩], none⟩,
  ⟨"Person", "A human being.", none, none, [], none⟩,
  ⟨"Employee", "A person on the payroll.", none, none,
    [⟨.inherits, "Employee", "Person", none⟩, ⟨.requires, "Employee", "Department", none⟩], none⟩,
  ⟨"Manager", "An employee who leads others.", none, none,
    [⟨.inherits, "Manager", "Employee", none⟩, ⟨.composes, "Manager", "Site", none⟩], none⟩,
  ⟨"Report", "A paper for the board.", none, none,
    [⟨.composes, "Report", "Manager", none⟩], none⟩]

def staff : Graph :=
  Graph.ofTerms (Primitives.ofNames builtInPrimitives) staffTerms

theorem staff_view_manager :
    (staff.view .standard "manager").map (fun v =>
      v.joins.map fun j => (j.aliasName, j.table, j.parentAlias)) =
    .ok [("t1", "physical_site", "t0"), ("t2", "logical_employee", "t0")] := by
  decide +kernel

theorem staff_view_report :
    (staff.view .standard "report").map (fun v =>
      (v.joins.map fun j => (j.aliasName, j.table, j.parentAlias), v.issues.map Issue.code)) =
    .ok ([("t1", "physical_manager", "t0"), ("t2", "physical_employee", "t1"),
      ("t3", "physical_person", "t1"), ("t4", "physical_department", "t2"),
      ("t5", "physical_site", "t4")], []) := by
  decide +kernel

end Glossary
