import Glossary.Proofs.EnumeratedStatements
import Glossary.Proofs.HiddenAmbiguities
import Glossary.Proofs.Independence
import Glossary.Proofs.Isolation

/-!
Look-ups in an accepted graph. Every key that a term refers to has a name, and every identifier has
a type; so enumerating the graph and resolving its terms never depend on what a look-up of an
unknown key comes to.
-/

namespace Glossary

open Fallible

def Node.name : Node → String
  | .term _ name _ _ => name
  | .primitive _ name => name

namespace Graph

/-- The key is that of a term or of a primitive type. -/
def Knows (g : Graph) (key : Key) : Prop :=
  (g.label? key).isSome = true

/-- The graph with names and types for keys that it does not know. -/
def answering (g : Graph) (stray : List (Key × String)) : Graph :=
  ⟨g.entries, ⟨g.primitives.entries ++ stray⟩⟩

/-- `identifierSource`, where any of the look-ups may fail. -/
def identifierSource? (g : Graph) (o : ResolutionOptions) (key : Key) :
    Option (String × String) := do
  let label ← g.label? key
  match g.primitiveType? key with
  | some primitive => return (Name.snakeCase label, primitive)
  | none =>
      match (g.declaredIdentifier? key).filter fun k => k != "" with
      | some declared => do
          let declaredLabel ← g.label? declared
          let primitive ← g.primitiveType? declared
          return (Name.snakeCase declaredLabel, primitive)
      | none => return (Name.identifierColumn label, o.identifierType)

/-- What terms refer to is known, and what they take for a value has a primitive type. -/
structure IsClosed (g : Graph) : Prop where
  scalar_typed : ∀ e ∈ g.entries, e.term.isScalar = true → e.primitive.isSome = true
  parent_known : ∀ key, ∀ parent ∈ g.parents key, g.Knows parent
  reference_known : ∀ key, ∀ l ∈ g.references key, g.Knows l.target
  identifier_known : ∀ key i, g.declaredIdentifier? key = some i → g.Knows i
  identifier_typed : ∀ key i, g.declaredIdentifier? key = some i →
    (g.primitiveType? i).isSome = true
  term_found : ∀ name, g.declares (Name.key name) = true →
    ∃ t ∈ g.terms, t.key = Name.key name ∧ g.termOf name = .ok t

/-- Nodes and edges have the names of their keys, edges run between nodes, and unknown keys play no
part. -/
structure IsEnumerable (g : Graph) : Prop where
  node_named : ∀ n ∈ g.nodes, g.label? n.key = some n.name
  source_named : ∀ e ∈ g.edges, g.label? e.sourceKey = some e.source
  target_named : ∀ e ∈ g.edges, g.label? e.targetKey = some e.target
  source_mem : ∀ e ∈ g.edges, e.sourceKey ∈ g.nodes.map Node.key
  target_mem : ∀ e ∈ g.edges, e.targetKey ∈ g.nodes.map Node.key
  nodes_answering : ∀ stray, (g.answering stray).nodes = g.nodes
  edges_answering : ∀ stray, (g.answering stray).edges = g.edges

/-- The problems that a request for a name may come to. -/
def Expects (g : Graph) (o : ResolutionOptions) (name : String) : Diagnostic → Prop
  | .undefined _ _ _ => g.declares (Name.key name) = false
  | .cyclicInheritance _ _ => g.declares (Name.key name) = true
  | .cyclicComposition _ _ => g.declares (Name.key name) = true
  | .ambiguousIdentifier _ _ _ => g.declares (Name.key name) = true ∧ o.strict = true
  | _ => False

/-- Whatever name is asked for, there is a schema with a column or an expected problem, and unknown
keys play no part. -/
structure IsResolvable (g : Graph) (o : ResolutionOptions) : Prop where
  identifier_found : ∀ key, g.Knows key →
    g.identifierSource? o key = some (g.identifierSource o key)
  answered : ∀ layer name memory, memory.Faithful g o →
    match ((Resolver.mk g o).request layer name memory).1 with
    | .ok s => s.columns ≠ []
    | .error e => g.Expects o name e.diagnostic
  contributions_answering : ∀ stray key, g.declares key = true →
    (g.answering stray).contributions o key = g.contributions o key
  request_answering : ∀ stray name, g.declares (Name.key name) = true →
    (Resolver.mk g o).AnswersAlike ⟨g.answering stray, o⟩ name

variable {primitives : Primitives} {terms : List Term} {g : Graph} {o : ResolutionOptions}
  {key x : Key} {name : String}

theorem knows_iff : g.Knows key ↔ g.declares key = true ∨ g.primitives.contains key = true := by
  unfold Knows label? declares Primitives.contains
  cases g.entry? key with
  | none => simp
  | some e => simp

theorem Accepts.knows (h : Accepts primitives terms)
    (hrefers : (ofTerms primitives terms).RefersTo key x) : (ofTerms primitives terms).Knows x :=
  knows_iff.mpr (h.declared_or_primitive hrefers)

/-- A scalar term has its primitive type from a declaration or from a statement, and both have been
looked up. -/
theorem AcceptsTerm.primitive_isSome {t : Term} (h : AcceptsTerm primitives terms t)
    (hscalar : t.isScalar = true) : (Entry.ofTerm primitives t).primitive.isSome = true := by
  obtain ⟨name, hname, hprimitive⟩ :
      ∃ name, t.typeName? = some name ∧ primitives.contains (Name.key name) = true := by
    unfold Term.typeName?
    cases htype : t.type? with
    | some type => exact ⟨type, rfl, h.type_known type htype⟩
    | none =>
        simp only [Term.isScalar, htype, Option.isSome_none, Bool.false_or] at hscalar
        rw [List.any_eq_true] at hscalar
        obtain ⟨r, hr⟩ := Option.isSome_iff_exists.mp (List.find?_isSome.mpr hscalar)
        have hallowed := h.targets_allowed r (List.mem_of_find?_eq_some hr)
        have hrelation : r.relation = .primitiveType := by simpa using List.find?_some hr
        rw [AllowsTarget, hrelation] at hallowed
        exact ⟨r.target, by rw [hr]; rfl, hallowed⟩
  rw [Entry.ofTerm, hname]
  exact hprimitive

theorem Accepts.primitiveType?_isSome (h : Accepts primitives terms)
    (hvalue : IsValueKey primitives terms key) :
    ((ofTerms primitives terms).primitiveType? key).isSome = true := by
  unfold primitiveType?
  rw [entry?_ofTerms]
  rcases hvalue with ⟨u, hu, rfl, hscalar⟩ | hprimitive
  · rw [(find?_key_eq_some_iff h.nodup).mpr ⟨hu, rfl⟩]
    exact (h.accepts_term u hu).primitive_isSome hscalar
  · rw [← entry?_ofTerms, h.entry?_eq_none hprimitive]
    exact hprimitive

theorem Accepts.isValueKey (h : Accepts primitives terms)
    (hkey : (ofTerms primitives terms).declaredIdentifier? key = some x) :
    IsValueKey primitives terms x := by
  unfold declaredIdentifier? at hkey
  rw [entry?_ofTerms] at hkey
  obtain ⟨e, he, hidentifier⟩ := Option.bind_eq_some_iff.mp hkey
  obtain ⟨t, ht, rfl⟩ := Option.map_eq_some_iff.mp he
  obtain ⟨i, hi, rfl⟩ := Option.map_eq_some_iff.mp hidentifier
  exact (h.accepts_term t (List.mem_of_find?_eq_some ht)).identifier_value i hi

theorem termOf_eq_ok (hdeclares : (ofTerms primitives terms).declares (Name.key name) = true) :
    ∃ t ∈ (ofTerms primitives terms).terms, t.key = Name.key name ∧
      (ofTerms primitives terms).termOf name = .ok t := by
  obtain ⟨e, he⟩ := Option.isSome_iff_exists.mp hdeclares
  have hterm : (ofTerms primitives terms).termOf name = .ok e.term := by
    refine bind_eq_ok_iff.mpr ⟨Name.key name, keyOf_eq_ok_iff.mpr ⟨hdeclares, rfl⟩, ?_⟩
    rw [he]
    rfl
  rw [entry?_ofTerms] at he
  obtain ⟨t, ht, rfl⟩ := Option.map_eq_some_iff.mp he
  rw [terms_ofTerms]
  exact ⟨t, List.mem_of_find?_eq_some ht, key_eq_of_find? ht, hterm⟩

theorem isClosed (h : Accepts primitives terms) : (ofTerms primitives terms).IsClosed where
  scalar_typed := by
    intro e he hscalar
    obtain ⟨t, ht, rfl⟩ := List.mem_map.mp he
    exact (h.accepts_term t ht).primitive_isSome hscalar
  parent_known := by
    intro key parent hparent
    obtain ⟨l, hl, rfl⟩ := List.mem_map.mp hparent
    exact h.knows (Or.inl ⟨l, List.mem_of_mem_filter hl, rfl⟩)
  reference_known := by
    intro key l hl
    exact h.knows (Or.inl ⟨l, List.mem_of_mem_filter hl, rfl⟩)
  identifier_known key i hi := h.knows (Or.inr hi)
  identifier_typed key i hi := h.primitiveType?_isSome (h.isValueKey hi)
  term_found _ := termOf_eq_ok

section Answering

variable {stray : List (Key × String)}

theorem spelling?_answering (h : g.Knows key) (hentry : g.entry? key = none) :
    (g.answering stray).primitives.spelling? key = g.primitives.spelling? key := by
  unfold Knows label? at h
  simp only [hentry] at h
  obtain ⟨spelling, hspelling⟩ := Option.isSome_iff_exists.mp h
  unfold Primitives.spelling? at hspelling ⊢
  rw [answering, List.lookup_append, hspelling, Option.some_or]

theorem entry?_answering : Graph.entry? (g.answering stray) key = g.entry? key :=
  rfl

theorem label?_answering (h : g.Knows key) : (g.answering stray).label? key = g.label? key := by
  unfold label?
  rw [entry?_answering]
  cases hentry : g.entry? key with
  | some e => rfl
  | none => exact spelling?_answering h hentry

theorem label_answering (h : g.Knows key) : (g.answering stray).label key = g.label key := by
  rw [label, label?_answering h, label]

theorem primitiveType?_answering (h : g.Knows key) :
    (g.answering stray).primitiveType? key = g.primitiveType? key := by
  unfold primitiveType?
  rw [entry?_answering]
  cases hentry : g.entry? key with
  | some e => rfl
  | none => exact spelling?_answering h hentry

/-- The known keys refer to known keys alone, so that no other key matters to them. -/
theorem agreesOn_answering (h : ∀ k x, g.RefersTo k x → g.Knows x)
    (stray : List (Key × String)) : g.AgreesOn (g.answering stray) {k | g.Knows k} where
  links_eq _ _ := rfl
  label_eq _ hk := (label_answering hk).symm
  primitiveType?_eq _ hk := (primitiveType?_answering hk).symm
  identifier?_eq _ _ := rfl
  isEntity_eq _ _ := rfl
  target_mem k _ l hl := h k l.target (Or.inl ⟨l, hl, rfl⟩)
  identifier_mem k _ i hi := h k i (Or.inr hi)

end Answering

section Enumeration

theorem label?_eq_of_isSpelling (h : Accepts primitives terms) {spelling : String}
    (hspelling : IsSpelling primitives terms key spelling) :
    (ofTerms primitives terms).label? key = some spelling := by
  unfold label?
  rw [entry?_ofTerms]
  rcases hspelling with ⟨u, hu, rfl, rfl⟩ | ⟨hfresh, hspelling⟩
  · rw [(find?_key_eq_some_iff h.nodup).mpr ⟨hu, rfl⟩]
    rfl
  · rw [find?_key_eq_none_iff.mpr hfresh]
    exact hspelling

theorem isSpelling_of_mem_nodes (h : Accepts primitives terms) {n : Node}
    (hn : n ∈ (ofTerms primitives terms).nodes) : IsSpelling primitives terms n.key n.name := by
  obtain ⟨used, hnodes, -, -, hused, hspelled⟩ := listsNodes h
  rw [hnodes] at hn
  rcases List.mem_append.mp hn with hn | hn
  · obtain ⟨t, ht, rfl⟩ := List.mem_map.mp hn
    exact Or.inl ⟨t, ht, rfl, rfl⟩
  · obtain ⟨u, hu, rfl⟩ := List.mem_map.mp hn
    exact Or.inr ⟨((hused u.1).mp (List.mem_map_of_mem hu)).2, hspelled u hu⟩

theorem mem_map_key_nodes_iff (h : Accepts primitives terms) :
    key ∈ (ofTerms primitives terms).nodes.map Node.key ↔
      key ∈ terms.map Term.key ∨ key ∈ targets terms := by
  obtain ⟨used, hnodes, -, -, hused, -⟩ := listsNodes h
  have hkeys : (ofTerms primitives terms).nodes.map Node.key =
      terms.map Term.key ++ used.map Prod.fst := by
    rw [hnodes, List.map_append, List.map_map, List.map_map]
    rfl
  rw [hkeys, List.mem_append, hused]
  tauto

theorem knows_of_mem_usedPrimitives (h : Accepts primitives terms)
    (hkey : key ∈ (ofTerms primitives terms).usedPrimitives) :
    (ofTerms primitives terms).Knows key := by
  have hspelling := spelling?_of_mem_usedPrimitives h hkey
  exact knows_iff.mpr (Or.inr (Option.isSome_iff_exists.mpr ⟨_, hspelling⟩))

theorem nodes_answering (h : Accepts primitives terms) (stray : List (Key × String)) :
    ((ofTerms primitives terms).answering stray).nodes = (ofTerms primitives terms).nodes := by
  have hused : (ofTerms primitives terms).usedPrimitives.map (fun key =>
      Node.primitive key (((ofTerms primitives terms).answering stray).label key)) =
      (ofTerms primitives terms).usedPrimitives.map fun key =>
        .primitive key ((ofTerms primitives terms).label key) := by
    apply List.map_congr_left
    intro key hkey
    rw [label_answering (knows_of_mem_usedPrimitives h hkey)]
  exact congrArg (_ ++ ·) hused

theorem mem_of_mem_groupedLinks {links : List Link} {l : Link} (hl : l ∈ groupedLinks links) :
    l ∈ links := by
  obtain ⟨before, after, rfl, -⟩ := mem_groupedLinks_iff.mp hl
  simp

theorem edges_answering (h : Accepts primitives terms) (stray : List (Key × String)) :
    ((ofTerms primitives terms).answering stray).edges = (ofTerms primitives terms).edges := by
  apply List.flatMap_congr
  intro e he
  apply List.map_congr_left
  intro l hl
  obtain ⟨t, ht, rfl⟩ := List.mem_map.mp he
  obtain ⟨r, hr, rfl⟩ := List.mem_map.mp (mem_of_mem_groupedLinks hl)
  have hknown : (ofTerms primitives terms).Knows r.targetKey :=
    knows_iff.mpr (h.target_known ht hr)
  rw [show (Link.ofRelationship r).target = r.targetKey from rfl, label_answering hknown]

theorem exists_statement_of_mem_edges (h : Accepts primitives terms) {e : Edge}
    (he : e ∈ (ofTerms primitives terms).edges) :
    ∃ s ∈ statements terms, e.Records primitives terms s := by
  obtain ⟨s, ⟨before, after, hsplit, -⟩, hrecords⟩ := exists_last_of_mem_edges h he
  exact ⟨s, by simp [hsplit], hrecords⟩

theorem isEnumerable (h : Accepts primitives terms) : (ofTerms primitives terms).IsEnumerable where
  node_named _ hn := label?_eq_of_isSpelling h (isSpelling_of_mem_nodes h hn)
  source_named := by
    intro e he
    obtain ⟨s, hs, hrecords⟩ := exists_statement_of_mem_edges h he
    obtain ⟨hkey, -⟩ := Prod.mk.inj hrecords.identity_eq
    rw [hkey, hrecords.source_eq]
    exact label?_eq_of_isSpelling h (Or.inl ⟨s.1, (mem_statements_iff.mp hs).1, rfl, rfl⟩)
  target_named := by
    intro e he
    obtain ⟨s, -, hrecords⟩ := exists_statement_of_mem_edges h he
    obtain ⟨-, htarget⟩ := Prod.mk.inj hrecords.identity_eq
    rw [(Prod.mk.inj htarget).1]
    exact label?_eq_of_isSpelling h hrecords.target_isSpelling
  source_mem := by
    intro e he
    obtain ⟨s, hs, hrecords⟩ := exists_statement_of_mem_edges h he
    obtain ⟨hkey, -⟩ := Prod.mk.inj hrecords.identity_eq
    rw [hkey, mem_map_key_nodes_iff h]
    exact Or.inl (List.mem_map_of_mem (mem_statements_iff.mp hs).1)
  target_mem := by
    intro e he
    obtain ⟨s, hs, hrecords⟩ := exists_statement_of_mem_edges h he
    obtain ⟨-, htarget⟩ := Prod.mk.inj hrecords.identity_eq
    rw [(Prod.mk.inj htarget).1, mem_map_key_nodes_iff h]
    exact Or.inr (List.mem_map_of_mem hs)
  nodes_answering := nodes_answering h
  edges_answering := edges_answering h

end Enumeration

section Requests

theorem identifierSource?_eq (h : g.IsClosed) (o : ResolutionOptions) (hkey : g.Knows key) :
    g.identifierSource? o key = some (g.identifierSource o key) := by
  have hlabel : ∀ k, g.Knows k → g.label? k = some (g.label k) := by
    intro k hk
    obtain ⟨name, hname⟩ := Option.isSome_iff_exists.mp hk
    rw [label, hname, Option.getD_some]
  unfold identifierSource? identifierSource
  rw [hlabel key hkey]
  cases g.primitiveType? key with
  | some primitive => rfl
  | none =>
      cases hdeclared : (g.declaredIdentifier? key).filter fun k => k != "" with
      | none => rfl
      | some declared =>
          have hidentifier := (Option.filter_eq_some_iff.mp hdeclared).1
          obtain ⟨primitive, hprimitive⟩ :=
            Option.isSome_iff_exists.mp (h.identifier_typed key declared hidentifier)
          simp only [Option.bind_eq_bind, Option.bind_some,
            hlabel declared (h.identifier_known key declared hidentifier), hprimitive]
          rfl

theorem isCycle_of_schema_eq_error (ho : o.strict = false) {layer : Layer} {e : ResolutionError}
    (h : g.schema o layer key = .error e) : e.IsCycle := by
  cases layer with
  | physical =>
      obtain ⟨-, cycle, rfl⟩ := table_eq_error ho (map_eq_error_iff.mp h)
      exact ⟨_, _, Or.inl rfl⟩
  | logical =>
      exact (viewWithin_eq_error ho (map_eq_error_iff.mp h) StandBelow.nil
        (by simp [stepBound])).1

theorem expects_of_schema_eq_error {layer : Layer} {e : ResolutionError}
    (hdeclares : g.declares (Name.key name) = true) (h : g.schema o layer key = .error e) :
    g.Expects o name e.diagnostic := by
  have hcycle : e.IsCycle → g.Expects o name e.diagnostic := by
    rintro ⟨term, path, rfl | rfl⟩
    · exact hdeclares
    · exact hdeclares
  obtain ⟨type, strict⟩ := o
  cases strict with
  | false => exact hcycle (isCycle_of_schema_eq_error rfl h)
  | true =>
      -- strictness adds refusals to the cycles that resolution without it finds
      rcases schema_does g type layer key with heq | ⟨term, column, kept, dropped, hrefused⟩
      · exact hcycle (isCycle_of_schema_eq_error rfl (heq.symm.trans h))
      · obtain rfl := Except.error.inj (hrefused.symm.trans h)
        exact ⟨hdeclares, rfl⟩

theorem columns_ne_nil {layer : Layer} {s : Schema} (h : g.schema o layer key = .ok s) :
    s.columns ≠ [] := by
  cases layer with
  | physical =>
      obtain ⟨t, ht, rfl⟩ := exists_of_map_eq_ok h
      exact List.ne_nil_of_mem (List.mem_of_head? (isTable_of_table_eq_ok ht).identifier_eq)
  | logical =>
      obtain ⟨v, hv, rfl⟩ := exists_of_map_eq_ok h
      obtain ⟨table, exposed, parents, hassembles⟩ := exists_assembles hv
      have hmem := List.mem_of_head? hassembles.identifier_eq
      exact List.ne_nil_of_mem (List.mem_map_of_mem hmem)

theorem expects_of_keyOf_eq_error {e : LookupError} (h : g.keyOf name = .error e) :
    g.Expects o name e.diagnostic := by
  have hfresh : g.declares (Name.key name) = false := by
    cases hdeclares : g.declares (Name.key name) with
    | false => rfl
    | true => cases h.symm.trans (keyOf_eq_ok_iff.mpr ⟨hdeclares, rfl⟩)
  cases e with
  | undeclared name => exact hfresh
  | primitive spelling => exact hfresh

theorem isResolvable (h : g.IsClosed) (hrefers : ∀ k x, g.RefersTo k x → g.Knows x)
    (o : ResolutionOptions) : g.IsResolvable o where
  identifier_found _ := identifierSource?_eq h o
  answered := by
    intro layer name memory hmemory
    rw [((Resolver.mk g o).request_eq layer name hmemory).1, Resolver.answer]
    cases hname : g.keyOf name with
    | error e => exact expects_of_keyOf_eq_error hname
    | ok key =>
        obtain ⟨hdeclares, rfl⟩ := keyOf_eq_ok_iff.mp hname
        change match (g.schema o layer (Name.key name)).mapError RequestError.resolution with
          | .ok s => s.columns ≠ []
          | .error e => g.Expects o name e.diagnostic
        cases hschema : g.schema o layer (Name.key name) with
        | ok s => exact columns_ne_nil hschema
        | error e => exact expects_of_schema_eq_error hdeclares hschema
  contributions_answering stray key hkey :=
    ((agreesOn_answering hrefers stray).contributions_eq o (knows_iff.mpr (Or.inl hkey))).symm
  request_answering stray name hdeclares := by
    have hagrees := agreesOn_answering hrefers stray
    have hknown : ∀ key, g.keyOf name = .ok key → g.Knows key := by
      intro key hname
      obtain ⟨hkey, rfl⟩ := keyOf_eq_ok_iff.mp hname
      exact knows_iff.mpr (Or.inl hkey)
    have hkey := keyOf_eq_ok_iff.mpr ⟨hdeclares, rfl⟩
    apply Resolver.answersAlike_of_schemas_eq
    · exact Eq.trans (keyOf_eq_ok_iff.mpr ⟨hdeclares, rfl⟩) hkey.symm
    · exact fun key hname => hagrees.table_eq o (hknown key hname)
    · exact fun key hname => hagrees.view_eq o (hknown key hname)

end Requests

/-- Whatever terms a graph is made from, once it is accepted no look-up in it fails: not when it is
enumerated, and not when a name is resolved. -/
theorem build_isSafe (h : build primitives terms = .ok g) :
    g.IsClosed ∧ g.IsEnumerable ∧ ∀ o, g.IsResolvable o := by
  obtain ⟨rfl, haccepts⟩ := build_eq_ok_iff.mp h
  have hclosed := isClosed haccepts
  exact ⟨hclosed, isEnumerable haccepts, isResolvable hclosed fun _ _ => haccepts.knows⟩

theorem bundle_isSafe :
    build (Primitives.ofNames builtInPrimitives) bundleTerms = .ok bundle ∧
      bundle.identifierSource? .standard "article" = some ("item_id", "Integer") ∧
      bundle.IsClosed ∧ bundle.IsEnumerable ∧ ∀ o, bundle.IsResolvable o := by
  have hidentifier : bundle.identifierSource? .standard "article" = some ("item_id", "Integer") := by
    decide +kernel
  exact ⟨build_bundleTerms, hidentifier, build_isSafe build_bundleTerms⟩

end Graph

end Glossary
