import Glossary.Proofs.AncestorOrder
import Glossary.Proofs.Table

/-!
The columns of a table are chosen from what its term, the ancestors of the term and its statements
bring, in this order. The first column of a name is chosen, and an anomaly tells of each column that
gives way to one of another term.
-/

namespace Glossary

open Fallible Text

def Column.sameName (c k : Column) : Bool :=
  c.name == k.name

theorem Column.sameName_comm (c k : Column) : c.sameName k = k.sameName c :=
  Bool.beq_comm

/-- No column of the list has the name of `c`. -/
def opensName (cs : List Column) (c : Column) : Bool :=
  !cs.any fun k => k.sameName c

/-- The column of another term that keeps the name of `c`. -/
def keeper? (cs : List Column) (c : Column) : Option Column :=
  (cs.find? fun k => k.sameName c).filter fun k => k.term != c.term

/-- The columns whose name is kept by a column of another term, each after the one that keeps it. -/
def displaced (cs : List Column) : List (Column × Column) :=
  cs.filterMap fun c => (keeper? cs c).map fun k => (k, c)

theorem name_eq_of_mem_displaced {cs : List Column} {kept dropped : Column}
    (h : (kept, dropped) ∈ displaced cs) : kept.name = dropped.name := by
  obtain ⟨c, -, hkeeper⟩ := List.mem_filterMap.mp h
  obtain ⟨k, hk, heq⟩ := Option.map_eq_some_iff.mp hkeeper
  obtain ⟨rfl, rfl⟩ := Prod.mk.inj heq
  obtain ⟨hfind, -⟩ := Option.filter_eq_some_iff.mp hk
  have hsame := List.find?_some hfind
  exact eq_of_beq hsame

/-- The anomaly tells that `dropped` has given way to `kept` in the table with this label. -/
structure Issue.TellsDropped (i : Issue) (label : String) (kept dropped : Column) : Prop where
  stage_eq : i.stage = .physical
  ambiguous_iff :
    i.code = "AMBIGUOUS_IDENTIFIER" ↔ kept.role ≠ .value ∧ dropped.role ≠ .value
  code_cases : i.code = "AMBIGUOUS_IDENTIFIER" ∨ i.code = "DUPLICATE_COLUMN"
  location_eq : i.location = label ++ "." ++ dropped.name
  details_eq : i.details = [("kept", .str kept.label), ("dropped", .str dropped.label)]

/-- The table has the first column of every name, and an anomaly for each displaced one. -/
structure TableSchema.SelectsFrom (t : TableSchema) (cs : List Column) : Prop where
  columns_eq : t.columns = cs.eraseDupsBy Column.sameName
  issues_tell : List.Forall₂ (fun drop i => i.TellsDropped t.label drop.1 drop.2) (displaced cs)
    t.issues

theorem Occasion.conflict_tellsDropped (label : String) (strict : Bool) {kept dropped : Column}
    (hname : kept.name = dropped.name) :
    (Occasion.conflict ⟨.physical, label, strict⟩ kept dropped).TellsDropped label kept dropped where
  stage_eq := rfl
  ambiguous_iff := by
    unfold conflict
    cases hambiguous : isAmbiguous kept dropped
    all_goals simpa [isAmbiguous, IssueCode.text] using hambiguous
  code_cases := by
    unfold conflict
    cases isAmbiguous kept dropped <;> simp [IssueCode.text]
  location_eq := congrArg (label ++ "." ++ ·) hname
  details_eq := rfl

namespace Draft

variable {o : Occasion} {d d' : Draft Column}

theorem addAll_columns {as : List Column} (h : d.addAll id o as = .ok d') :
    d'.columns =
      d.columns ++ (as.filter (opensName d.columns)).eraseDupsBy Column.sameName := by
  induction as generalizing d with
  | nil =>
      obtain rfl := Except.ok.inj h
      simp
  | cons a as ih =>
      obtain ⟨next, hnext, hrest⟩ := foldlM_cons_eq_ok_iff.mp h
      rw [ih hrest]
      -- a column that is taken hides the later ones of its name, as those before have done
      rcases add_cases hnext with ⟨hfresh, rfl⟩ | ⟨k, hk, hname, hkept⟩
      · have hopens : opensName d.columns a = true := by
          simpa [opensName, Column.sameName] using hfresh
        rw [List.filter_cons_of_pos hopens, List.eraseDupsBy_cons, List.filter_filter,
          List.append_assoc, List.singleton_append]
        congr 4
        funext c
        simp [opensName, Column.sameName_comm a c, Bool.and_comm]
      · have htaken : ¬ opensName d.columns a = true := by
          simpa [opensName, Column.sameName] using ⟨k, hk, hname⟩
        have hcolumns : next.columns = d.columns := by
          rcases hkept with ⟨-, rfl⟩ | rfl
          · rfl
          · rfl
        rw [List.filter_cons_of_neg htaken, hcolumns]

section Keeper

variable {cs : List Column} {a k : Column}

theorem keeper?_eq_none_of_opensName (h : (cs.find? fun k => k.sameName a) = none)
    (as : List Column) : keeper? (cs ++ a :: as) a = none := by
  have hself : a.sameName a = true := beq_self_eq_true a.name
  simp [keeper?, h, List.find?_append, hself]

theorem keeper?_eq_none_of_term_eq (h : (cs.find? fun k => k.sameName a) = some k)
    (hterm : k.term = a.term) (as : List Column) : keeper? (cs ++ as) a = none := by
  simp [keeper?, h, List.find?_append, Option.filter_some, hterm]

theorem keeper?_eq_some_of_term_ne (h : (cs.find? fun k => k.sameName a) = some k)
    (hterm : k.term ≠ a.term) (as : List Column) : keeper? (cs ++ as) a = some k := by
  simp [keeper?, h, List.find?_append, Option.filter_some, hterm]

end Keeper

theorem addAll_issues {as : List Column} (h : d.addAll id o as = .ok d') :
    d'.issues = d.issues ++
      as.filterMap fun c => (keeper? (d.columns ++ as) c).map fun k => o.conflict k c := by
  induction as generalizing d with
  | nil =>
      obtain rfl := Except.ok.inj h
      simp
  | cons a as ih =>
      obtain ⟨next, hnext, hrest⟩ := foldlM_cons_eq_ok_iff.mp h
      -- whether `a` is taken or not, every name has the same first column
      have hkeeper : ∀ c, keeper? (next.columns ++ as) c = keeper? (d.columns ++ a :: as) c := by
        intro c
        have hadd := add_find? hnext c.name
        rw [keeper?, keeper?, List.find?_append, List.append_cons, List.find?_append]
        exact congrArg (fun first => (Option.or first _).filter _) hadd
      rw [ih hrest, List.filterMap_cons]
      simp only [hkeeper]
      rcases add_cases_find? hnext with ⟨hnone, rfl⟩ | ⟨k, hk, ⟨hterm, rfl⟩ | ⟨hterm, rfl⟩⟩
      · rw [keeper?_eq_none_of_opensName (a := a) hnone]
        rfl
      · rw [keeper?_eq_none_of_term_eq (a := a) hk hterm]
        rfl
      · rw [keeper?_eq_some_of_term_ne (a := a) hk hterm]
        simp

end Draft

def Relationship.isReference (r : Relationship) : Bool :=
  r.relation == .composes || r.relation == .requires

namespace Graph

/-- The column that brings the identifier of `target`. -/
def bringing (g : Graph) (o : ResolutionOptions) (target : Key) (role : Role) (required : Bool)
    (relation : Option Relation) : Column where
  name := (g.identifierSource o target).1
  primitive := (g.identifierSource o target).2
  role := role
  required := required
  term := target
  label := g.label target
  relation := relation

/-- What is brought to the table of a term with these ancestors: its own identifier, the identifier
of each ancestor, and a column for each thing that it says it has or must have. -/
def brought (g : Graph) (o : ResolutionOptions) (u : Term) (ancestors : List Key) : List Column :=
  g.bringing o u.key .identifier true none ::
    ((ancestors.map fun a => g.bringing o a .inheritedIdentifier false (some .inherits)) ++
      (u.relationships.filter Relationship.isReference).map fun r =>
        g.bringing o r.targetKey (if g.isScalar r.targetKey then .value else .reference)
          (r.relation == .requires) (some r.relation))

variable {primitives : Primitives} {terms : List Term} {g : Graph} {o : ResolutionOptions} {u : Term}

theorem references_ofTerms (hnodup : (terms.map Term.key).Nodup) (hu : u ∈ terms) :
    (ofTerms primitives terms).references u.key =
      (u.relationships.filter Relationship.isReference).map Link.ofRelationship := by
  have hfind : (terms.find? fun t => t.key == u.key) = some u :=
    (find?_key_eq_some_iff hnodup).mpr ⟨hu, rfl⟩
  rw [references, links, entry?_ofTerms, hfind]
  exact List.filter_map

theorem contributions_eq_brought (hg : build primitives terms = .ok g) (hu : u ∈ terms) :
    g.contributions o u.key = g.brought o u (g.ancestors u.key) := by
  obtain ⟨rfl, haccepts⟩ := build_eq_ok_iff.mp hg
  rw [contributions, brought, references_ofTerms haccepts.nodup hu, List.map_map]
  rfl

theorem table_selectsFrom {key : Key} {t : TableSchema} (h : g.table o key = .ok t) :
    t.SelectsFrom (g.contributions o key) := by
  obtain ⟨⟨⟩, -, h⟩ := bind_eq_ok_iff.mp h
  obtain ⟨d, hd, h⟩ := bind_eq_ok_iff.mp h
  obtain rfl := Except.ok.inj h
  constructor
  · have hcolumns := Draft.addAll_columns hd
    rw [Draft.empty, List.nil_append,
      List.filter_eq_self.mpr fun c _ => show opensName [] c = true from rfl] at hcolumns
    exact hcolumns
  · have hissues : d.issues = (displaced (g.contributions o key)).map fun drop =>
        Occasion.conflict ⟨.physical, g.label key, o.strict⟩ drop.1 drop.2 := by
      rw [Draft.addAll_issues hd, displaced, List.map_filterMap]
      simp [Draft.empty, Function.comp_def]
    show List.Forall₂ _ _ d.issues
    rw [hissues, List.forall₂_map_right_iff, List.forall₂_same]
    rintro ⟨kept, dropped⟩ hmem
    exact Occasion.conflict_tellsDropped _ _ (name_eq_of_mem_displaced hmem)

/-- A table has the first column of every name among those that are brought to it. The ancestors
bring theirs in the one order that they have, and what is displaced by a column of another term is
told of. -/
theorem table_selectsFirst (hg : build primitives terms = .ok g) (hu : u ∈ terms)
    {t : TableSchema} (h : g.table o u.key = .ok t) : ∃ ancestors,
      (∀ keys, g.OrdersAncestors u.key keys ↔ keys = ancestors) ∧
        t.SelectsFrom (g.brought o u ancestors) := by
  have hacyclic := (isTable_of_table_eq_ok h).acyclic
  have horder := ordersAncestors_ancestors hacyclic
  refine ⟨g.ancestors u.key, fun keys => ⟨fun hkeys => hkeys.unique horder hacyclic, ?_⟩, ?_⟩
  · rintro rfl
    exact horder
  · rw [← contributions_eq_brought hg hu]
    exact table_selectsFrom h

/-- A cat has a number and a breed whose columns are those of ancestors. -/
def catTerm : Term :=
  ⟨"Cat", "A pet that hunts.", none, none,
    [⟨.composes, "Cat", "Pet Id", none⟩, ⟨.inherits, "Cat", "Pet", none⟩,
      ⟨.requires, "Cat", "Breed", none⟩, ⟨.inherits, "Cat", "Hunter", none⟩], none⟩

/-- A cat is an animal in two ways, and so is a hunter a being. -/
def kennelTerms : List Term := [
  ⟨"Being", "What lives.", none, none, [], none⟩,
  ⟨"Animal", "A being that moves.", none, none, [⟨.inherits, "Animal", "Being", none⟩], none⟩,
  ⟨"Hunter", "What hunts.", none, none,
    [⟨.inherits, "Hunter", "Being", none⟩, ⟨.inherits, "Hunter", "Animal", none⟩], none⟩,
  ⟨"Pet", "What lives with us.", none, none, [⟨.inherits, "Pet", "Animal", none⟩], none⟩,
  ⟨"Pet Id", "A number.", some "Integer", none, [], none⟩,
  ⟨"Animal Id", "A name.", some "String", none, [], none⟩,
  ⟨"Breed", "A kind.", none, some "Animal Id", [], none⟩, catTerm]

def kennel : Graph :=
  ofTerms (Primitives.ofNames builtInPrimitives) kennelTerms

theorem kennel_table_cat :
    (kennel.table .standard catTerm.key).map (fun t => (t.columnNames, t.issues.map Issue.code)) =
      .ok (["cat_id", "pet_id", "hunter_id", "animal_id", "being_id"],
        ["DUPLICATE_COLUMN", "AMBIGUOUS_IDENTIFIER"]) := by
  decide +kernel

/-- The animal comes before the being, as the pet that declares it comes before the hunter. -/
theorem cat_selectsFirst :
    build (Primitives.ofNames builtInPrimitives) kennelTerms = .ok kennel ∧
      catTerm ∈ kennelTerms ∧ ∃ t, kennel.table .standard catTerm.key = .ok t ∧
        t.columnNames = ["cat_id", "pet_id", "hunter_id", "animal_id", "being_id"] ∧
        t.issues.map Issue.code = ["DUPLICATE_COLUMN", "AMBIGUOUS_IDENTIFIER"] ∧
        ∃ ancestors, (∀ keys, kennel.OrdersAncestors catTerm.key keys ↔ keys = ancestors) ∧
          t.SelectsFrom (kennel.brought .standard catTerm ancestors) := by
  have hbuild : build (Primitives.ofNames builtInPrimitives) kennelTerms = .ok kennel := rfl
  have hcat : catTerm ∈ kennelTerms := by simp [kennelTerms]
  obtain ⟨t, ht, hvalues⟩ := exists_of_map_eq_ok kennel_table_cat
  obtain ⟨hnames, hcodes⟩ := Prod.mk.inj hvalues
  exact ⟨hbuild, hcat, t, ht, hnames, hcodes, table_selectsFirst hbuild hcat ht⟩

end Graph

end Glossary
