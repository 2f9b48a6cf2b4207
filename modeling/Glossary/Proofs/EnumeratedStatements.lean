import Glossary.Graph.Enumeration
import Glossary.Proofs.Locality
import Glossary.Proofs.ParsedTerms
import Mathlib.Algebra.GroupWithZero.Nat

/-!
The nodes and edges of a graph list what its terms state, and nothing else. An edge is told by its
ends and its relation; terms that are read make no two statements about one target, so that each of
their statements has an edge of its own.
-/

namespace Glossary

open Fallible

/-- What an edge is told by. -/
abbrev EdgeIdentity := Key × Key × Relation

def Edge.identity (e : Edge) : EdgeIdentity :=
  (e.sourceKey, e.targetKey, e.relation)

def Node.ofTerm (primitives : Primitives) (t : Term) : Node :=
  .term t.key t.name t.definition (Entry.ofTerm primitives t).primitive

/-- All statements of terms in declaration order, each with the term that makes it. -/
def statements (terms : List Term) : List (Term × Relationship) :=
  terms.flatMap fun t => t.relationships.map fun r => (t, r)

/-- The identity of the edge that a statement calls for. -/
def statementIdentity (s : Term × Relationship) : EdgeIdentity :=
  (s.1.key, s.2.targetKey, s.2.relation)

/-- The keys that statements are about, in order of use. -/
def targets (terms : List Term) : List Key :=
  (statements terms).map fun s => s.2.targetKey

/-- The name under which a key is declared, be it that of a term or that of a primitive type. -/
def IsSpelling (primitives : Primitives) (terms : List Term) (key : Key) (name : String) : Prop :=
  (∃ u ∈ terms, u.key = key ∧ u.name = name) ∨
    key ∉ terms.map Term.key ∧ primitives.spelling? key = some name

/-- The edge tells all of the statement, with both ends as they are declared. -/
structure Edge.Records (primitives : Primitives) (terms : List Term) (e : Edge)
    (s : Term × Relationship) : Prop where
  identity_eq : e.identity = statementIdentity s
  source_eq : e.source = s.1.name
  target_isSpelling : IsSpelling primitives terms s.2.targetKey e.target
  line_eq : e.line = s.2.line

/-- No later statement calls for the same edge. -/
def IsLastStatement (terms : List Term) (s : Term × Relationship) : Prop :=
  ∃ before after, statements terms = before ++ s :: after ∧
    ∀ later ∈ after, statementIdentity later ≠ statementIdentity s

/-- The terms come first, each once and in order; then the primitive types that statements are
about, each once, in order of first use and as they are spelled. -/
def Graph.ListsNodes (g : Graph) (primitives : Primitives) (terms : List Term) : Prop :=
  ∃ used : List (Key × String),
    g.nodes = terms.map (Node.ofTerm primitives) ++ used.map (fun u => .primitive u.1 u.2) ∧
      (used.map Prod.fst).Nodup ∧
      (used.map Prod.fst).Pairwise
        (fun key key' => (targets terms).idxOf key < (targets terms).idxOf key') ∧
      (∀ key, key ∈ used.map Prod.fst ↔ key ∈ targets terms ∧ key ∉ terms.map Term.key) ∧
      ∀ u ∈ used, primitives.spelling? u.1 = some u.2

/-- There is one edge for each identity that statements call for, and it tells the last of the
statements that do. -/
structure Graph.ListsLastStatements (g : Graph) (primitives : Primitives) (terms : List Term) :
    Prop where
  identity_nodup : (g.edges.map Edge.identity).Nodup
  identity_mem : ∀ s ∈ statements terms, statementIdentity s ∈ g.edges.map Edge.identity
  records_last : ∀ e ∈ g.edges, ∃ s, IsLastStatement terms s ∧ e.Records primitives terms s

namespace Graph

section Grouping

variable {links rest : List Link} {l l' : Link}

/-- What a link is told by among the links of one term. -/
def linkIdentity (l : Link) : Key × Relation :=
  (l.target, l.relation)

theorem linkIdentity_eq_iff :
    linkIdentity l = linkIdentity l' ↔ l.target = l'.target ∧ l.relation = l'.relation :=
  Prod.ext_iff

theorem placeLink_of_fresh (h : l.target ∉ links.map Link.target) :
    placeLink links l = links ++ [l] := by
  induction links with
  | nil => rfl
  | cons first rest ih =>
      rw [List.map_cons, List.mem_cons, not_or] at h
      have hne : first.target ≠ l.target := fun heq => h.1 heq.symm
      rw [placeLink, if_neg (fun hsame => hne hsame.1), if_neg (fun hsame => hne hsame.1), ih h.2]
      rfl

/-- Placing a link puts it beside all links that are told by something else. -/
theorem placeLink_perm (hnodup : (links.map linkIdentity).Nodup) :
    (placeLink links l).Perm
      (l :: links.filter fun other => linkIdentity other ≠ linkIdentity l) := by
  induction links with
  | nil => rfl
  | cons first rest ih =>
      rw [List.map_cons, List.nodup_cons] at hnodup
      unfold placeLink
      split
      · rename_i hsame
        have hfirst : linkIdentity first = linkIdentity l := linkIdentity_eq_iff.mpr hsame
        have hrest : ∀ other ∈ rest, linkIdentity other ≠ linkIdentity l := by
          intro other hmem heq
          exact hnodup.1 (hfirst.trans heq.symm ▸ List.mem_map_of_mem hmem)
        rw [List.filter_cons_of_neg (by simpa using hfirst),
          List.filter_eq_self.mpr (by simpa using hrest)]
      · rename_i hother
        have hfirst : linkIdentity first ≠ linkIdentity l :=
          fun heq => hother (linkIdentity_eq_iff.mp heq)
        rw [List.filter_cons_of_pos (by simpa using hfirst)]
        split
        · -- the link goes behind the last one with its target, so none further on is told alike
          rename_i hfresh
          have hrest : ∀ other ∈ rest, linkIdentity other ≠ linkIdentity l := by
            intro other hmem heq
            apply hfresh.2
            rw [List.any_eq_true]
            exact ⟨other, hmem, by simpa using (linkIdentity_eq_iff.mp heq).1⟩
          rw [List.filter_eq_self.mpr (by simpa using hrest)]
          exact List.Perm.swap l first rest
        · exact ((ih hnodup.2).cons first).trans (List.Perm.swap l first _)

theorem groupedLinks_append_singleton :
    groupedLinks (links ++ [l]) = placeLink (groupedLinks links) l := by
  rw [groupedLinks, List.foldl_append]
  rfl

theorem nodup_groupedLinks (links : List Link) :
    ((groupedLinks links).map linkIdentity).Nodup := by
  induction links using List.reverseRecOn with
  | nil => exact List.nodup_nil
  | append_singleton links l ih =>
      rw [groupedLinks_append_singleton, ((placeLink_perm ih).map linkIdentity).nodup_iff,
        List.map_cons, List.nodup_cons]
      refine ⟨?_, ih.sublist (List.filter_sublist.map linkIdentity)⟩
      simp

/-- The links that are kept are those that no later one replaces. -/
theorem mem_groupedLinks_iff : l ∈ groupedLinks links ↔
    ∃ before after, links = before ++ l :: after ∧
      ∀ later ∈ after, linkIdentity later ≠ linkIdentity l := by
  induction links using List.reverseRecOn with
  | nil => simp [groupedLinks]
  | append_singleton links last ih =>
      rw [groupedLinks_append_singleton, (placeLink_perm (nodup_groupedLinks links)).mem_iff,
        List.mem_cons, List.mem_filter, ih]
      -- the last link is kept, and of the others those that it does not replace
      constructor
      · rintro (rfl | ⟨⟨before, after, rfl, hlater⟩, hlast⟩)
        · exact ⟨links, [], rfl, by simp⟩
        · refine ⟨before, after ++ [last], by simp, ?_⟩
          intro later hmem
          rcases List.mem_append.mp hmem with hmem | hmem
          · exact hlater later hmem
          · rw [List.mem_singleton.mp hmem]
            exact Ne.symm (by simpa using hlast)
      · rintro ⟨before, after, heq, hlater⟩
        rcases List.eq_nil_or_concat after with rfl | ⟨after, later, rfl⟩
        · rw [List.append_inj_right' heq rfl |> List.singleton_inj.mp]
          exact Or.inl rfl
        · have hsplit : links ++ [last] = (before ++ l :: after) ++ [later] := by simpa using heq
          obtain ⟨rfl, hlast⟩ := List.append_inj' hsplit rfl
          obtain rfl := List.singleton_inj.mp hlast
          right
          refine ⟨⟨before, after, rfl, fun other hmem => hlater other (by simp [hmem])⟩, ?_⟩
          exact decide_eq_true (Ne.symm (hlater last (by simp)))

theorem mem_map_groupedLinks {identity : Key × Relation} :
    identity ∈ (groupedLinks links).map linkIdentity ↔ identity ∈ links.map linkIdentity := by
  induction links using List.reverseRecOn with
  | nil => rfl
  | append_singleton links l ih =>
      rw [groupedLinks_append_singleton,
        ((placeLink_perm (nodup_groupedLinks links)).map linkIdentity).mem_iff, List.map_append,
        List.mem_append, ← ih]
      by_cases heq : identity = linkIdentity l
      · simp [heq]
      · simp only [List.map_cons, List.mem_cons, heq, false_or, List.map_nil, List.not_mem_nil,
          or_false, List.mem_map, List.mem_filter]
        constructor
        · rintro ⟨other, ⟨hmem, -⟩, rfl⟩
          exact ⟨other, hmem, rfl⟩
        · rintro ⟨other, hmem, rfl⟩
          exact ⟨other, ⟨hmem, by simpa using heq⟩, rfl⟩

theorem groupedLinks_eq_self (h : (links.map Link.target).Nodup) : groupedLinks links = links := by
  induction links using List.reverseRecOn with
  | nil => rfl
  | append_singleton links l ih =>
      rw [List.map_append, List.nodup_append] at h
      have hfresh : l.target ∉ links.map Link.target :=
        fun hmem => h.2.2 _ hmem _ (List.mem_singleton_self _) rfl
      rw [groupedLinks_append_singleton, ih h.1, placeLink_of_fresh hfresh]

end Grouping

section Edges

variable {primitives : Primitives} {terms : List Term} {t : Term} {r : Relationship}

/-- The edge of a link of the term. -/
def edgeOf (g : Graph) (t : Term) (l : Link) : Edge where
  source := t.name
  target := g.label l.target
  sourceKey := t.key
  targetKey := l.target
  relation := l.relation
  line := l.statement.line

theorem edges_ofTerms (primitives : Primitives) (terms : List Term) :
    (ofTerms primitives terms).edges = terms.flatMap fun t =>
      (groupedLinks (t.relationships.map Link.ofRelationship)).map
        ((ofTerms primitives terms).edgeOf t) := by
  rw [edges, ofTerms, List.flatMap_map]
  rfl

theorem isSpelling_label {key : Key}
    (h : (ofTerms primitives terms).declares key = true ∨ primitives.contains key = true) :
    IsSpelling primitives terms key ((ofTerms primitives terms).label key) := by
  unfold label label?
  unfold declares at h
  rw [entry?_ofTerms] at h ⊢
  cases hfind : terms.find? fun u => u.key == key with
  | some u => exact Or.inl ⟨u, List.mem_of_find?_eq_some hfind, key_eq_of_find? hfind, rfl⟩
  | none =>
      rw [hfind] at h
      obtain ⟨spelling, hspelling⟩ := Option.isSome_iff_exists.mp (h.resolve_left Bool.noConfusion)
      refine Or.inr ⟨find?_key_eq_none_iff.mp hfind, ?_⟩
      simp [ofTerms, hspelling]

theorem Accepts.links_eq (h : Accepts primitives terms) (ht : t ∈ terms) :
    (ofTerms primitives terms).links t.key = t.relationships.map Link.ofRelationship := by
  rw [links, entry?_ofTerms, (find?_key_eq_some_iff h.nodup).mpr ⟨ht, rfl⟩]
  rfl

theorem Accepts.target_known (h : Accepts primitives terms) (ht : t ∈ terms)
    (hr : r ∈ t.relationships) :
    (ofTerms primitives terms).declares r.targetKey = true ∨
      primitives.contains r.targetKey = true := by
  have hlink : Link.ofRelationship r ∈ (ofTerms primitives terms).links t.key := by
    rw [h.links_eq ht]
    exact List.mem_map_of_mem hr
  exact h.declared_or_primitive (Or.inl ⟨_, hlink, rfl⟩)

theorem records_edgeOf (h : Accepts primitives terms) (ht : t ∈ terms)
    (hr : r ∈ t.relationships) :
    ((ofTerms primitives terms).edgeOf t (Link.ofRelationship r)).Records primitives terms
      (t, r) where
  identity_eq := rfl
  source_eq := rfl
  target_isSpelling := isSpelling_label (h.target_known ht hr)
  line_eq := rfl

theorem mem_statements_iff {s : Term × Relationship} :
    s ∈ statements terms ↔ s.1 ∈ terms ∧ s.2 ∈ s.1.relationships := by
  obtain ⟨t, r⟩ := s
  simp [statements]

/-- Where no term makes two statements about one target, edges and statements are the same. -/
theorem edges_eq_map_statements
    (h : ∀ t ∈ terms, (t.relationships.map Relationship.targetKey).Nodup) :
    (ofTerms primitives terms).edges = (statements terms).map fun s =>
      (ofTerms primitives terms).edgeOf s.1 (Link.ofRelationship s.2) := by
  rw [edges_ofTerms, statements, List.map_flatMap]
  apply List.flatMap_congr
  intro t ht
  have htargets : ((t.relationships.map Link.ofRelationship).map Link.target).Nodup := by
    rw [List.map_map]
    exact h t ht
  rw [groupedLinks_eq_self htargets, List.map_map, List.map_map]
  rfl

theorem forall₂_edges_statements (haccepts : Accepts primitives terms)
    (h : ∀ t ∈ terms, (t.relationships.map Relationship.targetKey).Nodup) :
    List.Forall₂ (Edge.Records primitives terms) (ofTerms primitives terms).edges
      (statements terms) := by
  rw [edges_eq_map_statements h, List.forall₂_map_left_iff, List.forall₂_same]
  intro s hs
  obtain ⟨ht, hr⟩ := mem_statements_iff.mp hs
  exact records_edgeOf haccepts ht hr

theorem map_identity_edges (primitives : Primitives) (terms : List Term) :
    (ofTerms primitives terms).edges.map Edge.identity = terms.flatMap fun t =>
      ((groupedLinks (t.relationships.map Link.ofRelationship)).map linkIdentity).map
        (Prod.mk t.key) := by
  rw [edges_ofTerms, List.map_flatMap]
  simp only [List.map_map]
  rfl

theorem nodup_identity_edges (hnodup : (terms.map Term.key).Nodup) :
    ((ofTerms primitives terms).edges.map Edge.identity).Nodup := by
  rw [map_identity_edges, List.nodup_flatMap]
  constructor
  · intro t _
    exact (nodup_groupedLinks _).map fun _ _ heq => (Prod.mk.inj heq).2
  · apply (List.pairwise_map.mp hnodup).imp
    intro t u hne
    apply List.disjoint_left.mpr
    intro identity ht hu
    obtain ⟨arrow, -, rfl⟩ := List.mem_map.mp ht
    obtain ⟨arrow', -, heq⟩ := List.mem_map.mp hu
    exact hne (Prod.mk.inj heq).1.symm

theorem statementIdentity_mem_edges {s : Term × Relationship} (hs : s ∈ statements terms) :
    statementIdentity s ∈ (ofTerms primitives terms).edges.map Edge.identity := by
  obtain ⟨ht, hr⟩ := mem_statements_iff.mp hs
  rw [map_identity_edges, List.mem_flatMap]
  refine ⟨s.1, ht, List.mem_map.mpr ⟨(s.2.targetKey, s.2.relation), ?_, rfl⟩⟩
  rw [mem_map_groupedLinks, List.map_map]
  exact List.mem_map_of_mem hr

/-- Statements of other terms have other sources. -/
theorem isLastStatement_of_term (hnodup : (terms.map Term.key).Nodup) (ht : t ∈ terms)
    {before after : List Relationship} (hr : t.relationships = before ++ r :: after)
    (hlater : ∀ later ∈ after, statementIdentity (t, later) ≠ statementIdentity (t, r)) :
    IsLastStatement terms (t, r) := by
  obtain ⟨above, below, rfl⟩ := List.append_of_mem ht
  refine ⟨statements above ++ before.map (fun r => (t, r)),
    after.map (fun r => (t, r)) ++ statements below, by simp [statements, hr], ?_⟩
  intro later hmem heq
  rcases List.mem_append.mp hmem with hmem | hmem
  · obtain ⟨other, hother, rfl⟩ := List.mem_map.mp hmem
    exact hlater other hother heq
  · have hkey : later.1.key ≠ t.key := by
      rw [List.map_append, List.map_cons, List.nodup_append, List.nodup_cons] at hnodup
      intro hsame
      exact hnodup.2.1.1 (hsame ▸ List.mem_map_of_mem (mem_statements_iff.mp hmem).1)
    exact hkey (Prod.mk.inj heq).1

theorem exists_last_of_mem_edges (haccepts : Accepts primitives terms) {e : Edge}
    (he : e ∈ (ofTerms primitives terms).edges) :
    ∃ s, IsLastStatement terms s ∧ e.Records primitives terms s := by
  rw [edges_ofTerms] at he
  obtain ⟨t, ht, he⟩ := List.mem_flatMap.mp he
  obtain ⟨l, hl, rfl⟩ := List.mem_map.mp he
  obtain ⟨before, after, hsplit, hlater⟩ := mem_groupedLinks_iff.mp hl
  obtain ⟨before, rest, hr, rfl, hrest⟩ := List.map_eq_append_iff.mp hsplit
  obtain ⟨r, after, rfl, rfl, rfl⟩ := List.map_eq_cons_iff.mp hrest
  refine ⟨(t, r), isLastStatement_of_term haccepts.nodup ht hr ?_,
    records_edgeOf haccepts ht (by simp [hr])⟩
  intro later hmem heq
  exact hlater _ (List.mem_map_of_mem hmem) (Prod.mk.inj heq).2

theorem listsLastStatements (haccepts : Accepts primitives terms) :
    (ofTerms primitives terms).ListsLastStatements primitives terms where
  identity_nodup := nodup_identity_edges haccepts.nodup
  identity_mem _ := statementIdentity_mem_edges
  records_last _ := exists_last_of_mem_edges haccepts

end Edges

section Nodes

variable {primitives : Primitives} {terms : List Term}

/-- Removing repetitions leaves keys in the order of their first use. -/
theorem pairwise_idxOf_eraseDups (keys : List Key) (p : Key → Bool) :
    (keys.filter p).eraseDups.Pairwise fun key key' => keys.idxOf key < keys.idxOf key' := by
  induction keys generalizing p with
  | nil => exact List.Pairwise.nil
  | cons first rest ih =>
      have hshift : ∀ q : Key → Bool, (∀ key, q key = true → key ≠ first) →
          (rest.filter q).eraseDups.Pairwise fun key key' =>
            (first :: rest).idxOf key < (first :: rest).idxOf key' := by
        intro q hq
        have hne : ∀ key ∈ (rest.filter q).eraseDups, first ≠ key := by
          intro key hmem
          exact (hq key (List.of_mem_filter (List.mem_eraseDups.mp hmem))).symm
        apply (ih q).imp_of_mem
        intro key key' hkey hkey' hlt
        rw [List.idxOf_cons_ne _ (hne key hkey), List.idxOf_cons_ne _ (hne key' hkey')]
        exact Nat.succ_lt_succ hlt
      by_cases hp : p first = true
      · rw [List.filter_cons_of_pos hp, List.eraseDups_cons, List.filter_filter, List.pairwise_cons]
        refine ⟨?_, hshift _ fun key hkey => by simpa using (Bool.and_eq_true_iff.mp hkey).1⟩
        intro key hmem
        have hne : first ≠ key := by
          rintro rfl
          simpa using List.of_mem_filter (List.mem_eraseDups.mp hmem)
        rw [List.idxOf_cons_self, List.idxOf_cons_ne _ hne]
        exact Nat.succ_pos _
      · rw [List.filter_cons_of_neg hp]
        exact hshift p fun key hkey heq => hp (heq ▸ hkey)

theorem usedPrimitives_ofTerms (primitives : Primitives) (terms : List Term) :
    (ofTerms primitives terms).usedPrimitives =
      ((targets terms).filter fun key => !(ofTerms primitives terms).declares key).eraseDups := by
  have htargets : ((ofTerms primitives terms).entries.flatMap Entry.links).map Link.target =
      targets terms := by
    simp only [ofTerms, targets, statements, List.flatMap_map, List.map_flatMap, List.map_map,
      Entry.ofTerm]
    rfl
  rw [usedPrimitives, htargets]

theorem declares_ofTerms_eq_false_iff {key : Key} :
    (ofTerms primitives terms).declares key = false ↔ key ∉ terms.map Term.key := by
  rw [← Bool.not_eq_true, declares_ofTerms_iff, List.mem_map]

theorem mem_usedPrimitives_iff {key : Key} : key ∈ (ofTerms primitives terms).usedPrimitives ↔
    key ∈ targets terms ∧ key ∉ terms.map Term.key := by
  rw [usedPrimitives_ofTerms, List.mem_eraseDups, List.mem_filter, Bool.not_eq_true',
    declares_ofTerms_eq_false_iff]

theorem spelling?_of_mem_usedPrimitives (haccepts : Accepts primitives terms) {key : Key}
    (hkey : key ∈ (ofTerms primitives terms).usedPrimitives) :
    primitives.spelling? key = some ((ofTerms primitives terms).label key) := by
  obtain ⟨htarget, hfresh⟩ := mem_usedPrimitives_iff.mp hkey
  obtain ⟨s, hs, rfl⟩ := List.mem_map.mp htarget
  obtain ⟨ht, hr⟩ := mem_statements_iff.mp hs
  rcases isSpelling_label (haccepts.target_known ht hr) with ⟨u, hu, heq, -⟩ | ⟨-, hspelling⟩
  · exact (hfresh (heq ▸ List.mem_map_of_mem hu)).elim
  · exact hspelling

theorem listsNodes (haccepts : Accepts primitives terms) :
    (ofTerms primitives terms).ListsNodes primitives terms := by
  have hkeys : ((ofTerms primitives terms).usedPrimitives.map fun key =>
      (key, (ofTerms primitives terms).label key)).map Prod.fst =
        (ofTerms primitives terms).usedPrimitives := by
    simp [Function.comp_def]
  have hpairwise : (ofTerms primitives terms).usedPrimitives.Pairwise fun key key' =>
      (targets terms).idxOf key < (targets terms).idxOf key' := by
    rw [usedPrimitives_ofTerms]
    exact pairwise_idxOf_eraseDups _ _
  refine ⟨(ofTerms primitives terms).usedPrimitives.map fun key =>
    (key, (ofTerms primitives terms).label key), ?_, ?_, ?_, ?_, ?_⟩
  · rw [nodes, List.map_map]
    simp only [ofTerms, List.map_map]
    rfl
  · rw [hkeys]
    exact hpairwise.imp fun hlt heq => (heq ▸ hlt).false
  · rw [hkeys]
    exact hpairwise
  · intro key
    rw [hkeys]
    exact mem_usedPrimitives_iff
  · intro u hu
    obtain ⟨key, hkey, rfl⟩ := List.mem_map.mp hu
    exact spelling?_of_mem_usedPrimitives haccepts hkey

end Nodes

variable {primitives : Primitives} {terms : List Term} {g : Graph}

theorem nodup_targets_of_mem_terms {names : List String} {text : String}
    (h : Dictionary.terms (.ofNames names) text = .ok terms) {t : Term} (ht : t ∈ terms) :
    (t.relationships.map Relationship.targetKey).Nodup :=
  (Dictionary.isWellFormed_of_mem h ht).consistent.targets_nodup

/-- The nodes are the terms and the primitive types in use, and the edges are the statements: one
by one and in order where the terms have been read from a text, and up to repetition otherwise. -/
theorem build_enumerates (h : build primitives terms = .ok g) :
    g.ListsNodes primitives terms ∧ g.ListsLastStatements primitives terms ∧
      ∀ names text, Dictionary.terms (.ofNames names) text = .ok terms →
        List.Forall₂ (Edge.Records primitives terms) g.edges (statements terms) ∧
          g.edges.length = (terms.map fun t => t.relationships.length).sum := by
  obtain ⟨rfl, haccepts⟩ := build_eq_ok_iff.mp h
  refine ⟨listsNodes haccepts, listsLastStatements haccepts, ?_⟩
  intro names text htext
  have hedges := forall₂_edges_statements haccepts fun _ ht => nodup_targets_of_mem_terms htext ht
  refine ⟨hedges, hedges.length_eq.trans ?_⟩
  rw [statements, List.length_flatMap]
  simp only [List.length_map]

/-- Two primitive types are in use, one of them by two terms. -/
def recipeText : String :=
  "# Recipe\nHow a dish is made.\n- Recipe has a title\n- Recipe must have a Cook\n" ++
    "- Recipe has a date\n\n# Title\nWhat a dish is called.\n- Title is a String\n\n" ++
    "# Cook\nWho makes it.\n- Cook has a string\n- Cook has a DATE\n"

def recipeTerms : List Term := [
  ⟨"Recipe", "How a dish is made.", none, none, [
    ⟨.composes, "Recipe", "title", some 3⟩, ⟨.requires, "Recipe", "Cook", some 4⟩,
    ⟨.composes, "Recipe", "date", some 5⟩], some 1⟩,
  ⟨"Title", "What a dish is called.", some "String", none,
    [⟨.primitiveType, "Title", "String", some 9⟩], some 7⟩,
  ⟨"Cook", "Who makes it.", none, none, [
    ⟨.composes, "Cook", "string", some 13⟩, ⟨.composes, "Cook", "DATE", some 14⟩], some 11⟩]

theorem terms_recipeText :
    Dictionary.terms (.ofNames builtInPrimitives) recipeText = .ok recipeTerms :=
  eq_ok_of_toOption_eq_some (by decide +kernel)

def recipes : Graph :=
  ofTerms (.ofNames builtInPrimitives) recipeTerms

theorem build_recipeTerms : build (.ofNames builtInPrimitives) recipeTerms = .ok recipes :=
  rfl

theorem recipe_enumerates :
    build (.ofNames builtInPrimitives) recipeTerms = .ok recipes ∧
      Dictionary.terms (.ofNames builtInPrimitives) recipeText = .ok recipeTerms ∧
      recipes.ListsNodes (.ofNames builtInPrimitives) recipeTerms ∧
      recipes.ListsLastStatements (.ofNames builtInPrimitives) recipeTerms ∧
      List.Forall₂ (Edge.Records (.ofNames builtInPrimitives) recipeTerms) recipes.edges
        (statements recipeTerms) ∧
      recipes.edges.length = 6 := by
  obtain ⟨hnodes, hlast, hedges⟩ := build_enumerates build_recipeTerms
  obtain ⟨hrecords, hlength⟩ := hedges _ _ terms_recipeText
  exact ⟨build_recipeTerms, terms_recipeText, hnodes, hlast, hrecords, hlength⟩

end Graph

end Glossary
