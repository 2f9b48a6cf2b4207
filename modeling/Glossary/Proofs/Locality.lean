import Glossary.Proofs.Acceptance
import Glossary.Proofs.ViewSimulation

/-!
The schemas of a term depend on nothing but the terms that it leads to, and not on where these stand
in the dictionary.
-/

namespace Glossary

open Fallible

/-- A statement with its place in the text forgotten. -/
def Relationship.unnumbered (r : Relationship) : Relationship :=
  { r with line := none }

def Term.unnumbered (t : Term) : Term :=
  { t with relationships := t.relationships.map Relationship.unnumbered, line := none }

/-- All of the terms are among the others, up to line numbers. -/
def Term.Included (terms terms' : List Term) : Prop :=
  ∀ t ∈ terms, ∃ t' ∈ terms', t'.unnumbered = t.unnumbered

/-- What resolution reads of an entry. -/
def Entry.reading (e : Entry) : String × List (Relation × Key) × Option String × Option Key :=
  (e.term.name, e.links.map Link.arrow, e.primitive, e.identifier)

theorem Relationship.unnumbered_relation (r : Relationship) :
    r.unnumbered.relation = r.relation :=
  rfl

theorem Relationship.unnumbered_targetKey (r : Relationship) :
    r.unnumbered.targetKey = r.targetKey :=
  rfl

namespace Term

@[simp] theorem unnumbered_key (t : Term) : t.unnumbered.key = t.key :=
  rfl

@[simp] theorem unnumbered_type? (t : Term) : t.unnumbered.type? = t.type? :=
  rfl

@[simp] theorem unnumbered_identifier? (t : Term) : t.unnumbered.identifier? = t.identifier? :=
  rfl

@[simp] theorem unnumbered_isScalar (t : Term) : t.unnumbered.isScalar = t.isScalar := by
  unfold isScalar
  rw [unnumbered_type?, unnumbered, List.any_map]
  rfl

@[simp] theorem unnumbered_typeName? (t : Term) : t.unnumbered.typeName? = t.typeName? := by
  unfold typeName?
  rw [unnumbered_type?, unnumbered, List.find?_map, Option.map_map]
  rfl

theorem reading_ofTerm_unnumbered (primitives : Primitives) (t : Term) :
    (Entry.ofTerm primitives t.unnumbered).reading = (Entry.ofTerm primitives t).reading := by
  have hlinks : (t.unnumbered.relationships.map Link.ofRelationship).map Link.arrow =
      (t.relationships.map Link.ofRelationship).map Link.arrow := by
    simp only [unnumbered, List.map_map]
    rfl
  unfold Entry.reading Entry.ofTerm
  rw [hlinks, unnumbered_typeName?, unnumbered_identifier?]
  rfl

end Term

namespace Graph

/-- A term refers to the targets of its statements and to the identifier that it declares. -/
def RefersTo (g : Graph) (key other : Key) : Prop :=
  (∃ l ∈ g.links key, l.target = other) ∨ g.declaredIdentifier? key = some other

def term? (g : Graph) (key : Key) : Option Term :=
  (g.entry? key).map Entry.term

/-- Every term that `key` leads to is recorded alike in both graphs, up to line numbers. -/
def RecordsAlike (g g' : Graph) (key : Key) : Prop :=
  ∀ x, Relation.ReflTransGen g.RefersTo key x → g.declares x = true →
    (g.term? x).map Term.unnumbered = (g'.term? x).map Term.unnumbered

variable {g g' : Graph} {primitives : Primitives} {terms terms' : List Term} {key x : Key}

theorem agreesOn_of_reading_eq {s : Set Key} (hprimitives : g.primitives = g'.primitives)
    (hreading : ∀ k ∈ s, (g.entry? k).map Entry.reading = (g'.entry? k).map Entry.reading)
    (hclosed : ∀ k ∈ s, ∀ x, g.RefersTo k x → x ∈ s) : g.AgreesOn g' s := by
  have hcases : ∀ k ∈ s, (g.entry? k = none ∧ g'.entry? k = none) ∨
      ∃ e e', g.entry? k = some e ∧ g'.entry? k = some e' ∧ e.reading = e'.reading := by
    intro k hk
    have heq := hreading k hk
    cases he : g.entry? k with
    | none =>
        rw [he] at heq
        exact Or.inl ⟨rfl, Option.map_eq_none_iff.mp heq.symm⟩
    | some e =>
        rw [he] at heq
        obtain ⟨e', he', hsame⟩ := Option.map_eq_some_iff.mp heq.symm
        exact Or.inr ⟨e, e', rfl, he', hsame.symm⟩
  constructor
  case target_mem => exact fun k hk l hl => hclosed k hk l.target (Or.inl ⟨l, hl, rfl⟩)
  case identifier_mem => exact fun k hk i hi => hclosed k hk i (Or.inr hi)
  all_goals
    intro k hk
    rcases hcases k hk with ⟨hnone, hnone'⟩ | ⟨e, e', he, he', hsame⟩
  case links_eq.inl => simp [links, hnone, hnone']
  case label_eq.inl => simp [label, label?, hnone, hnone', hprimitives]
  case primitiveType?_eq.inl => simp [primitiveType?, hnone, hnone', hprimitives]
  case identifier?_eq.inl => simp [declaredIdentifier?, hnone, hnone']
  case isEntity_eq.inl => simp [isEntity, hnone, hnone']
  all_goals
    simp only [Entry.reading, Prod.mk.injEq] at hsame
    obtain ⟨hname, hlinks, hprimitive, hidentifier⟩ := hsame
  case links_eq.inr => simpa [links, he, he'] using hlinks
  case label_eq.inr => simp [label, label?, he, he', hname]
  case primitiveType?_eq.inr => simp [primitiveType?, he, he', hprimitive]
  case identifier?_eq.inr => simp [declaredIdentifier?, he, he', hidentifier]
  case isEntity_eq.inr => simp [isEntity, he, he', hprimitive]

theorem declares_ofTerms_iff : (ofTerms primitives terms).declares x = true ↔
    ∃ u ∈ terms, u.key = x := by
  unfold declares
  rw [entry?_ofTerms, Option.isSome_map, List.find?_isSome]
  simp

/-- What an accepted term refers to is declared or a primitive type. -/
theorem Accepts.declared_or_primitive (h : Accepts primitives terms)
    (hrefers : (ofTerms primitives terms).RefersTo key x) :
    (ofTerms primitives terms).declares x = true ∨ primitives.contains x = true := by
  rw [declares_ofTerms_iff]
  unfold RefersTo links declaredIdentifier? at hrefers
  rw [entry?_ofTerms] at hrefers
  cases hfind : terms.find? fun t => t.key == key with
  | none => simp [hfind] at hrefers
  | some t =>
      have haccepts := h.accepts_term t (List.mem_of_find?_eq_some hfind)
      rw [hfind] at hrefers
      simp only [Option.map_some, Option.getD_some, Option.bind_some] at hrefers
      rcases hrefers with ⟨l, hl, rfl⟩ | hidentifier
      · obtain ⟨r, hr, rfl⟩ := List.mem_map.mp hl
        have hallows := haccepts.targets_allowed r hr
        unfold AllowsTarget at hallows
        cases hrelation : r.relation with
        | primitiveType =>
            rw [hrelation] at hallows
            exact Or.inr hallows
        | inherits =>
            rw [hrelation] at hallows
            obtain ⟨u, hu, hkey, -⟩ := hallows
            exact Or.inl ⟨u, hu, hkey⟩
        | composes =>
            rw [hrelation] at hallows
            exact hallows
        | requires =>
            rw [hrelation] at hallows
            exact hallows
      · obtain ⟨i, hi, rfl⟩ := Option.map_eq_some_iff.mp hidentifier
        rcases haccepts.identifier_value i hi with ⟨u, hu, hkey, -⟩ | hprimitive
        · exact Or.inl ⟨u, hu, hkey⟩
        · exact Or.inr hprimitive

theorem Accepts.entry?_eq_none (h : Accepts primitives terms)
    (hx : primitives.contains x = true) : Graph.entry? (ofTerms primitives terms) x = none := by
  cases hentry : Graph.entry? (ofTerms primitives terms) x with
  | none => rfl
  | some e =>
      have hdeclares : (ofTerms primitives terms).declares x = true := by
        rw [declares, hentry]
        rfl
      obtain ⟨u, hu, rfl⟩ := declares_ofTerms_iff.mp hdeclares
      rw [(h.accepts_term u hu).key_fresh] at hx
      cases hx

theorem reading_eq_of_term?_eq
    (h : ((ofTerms primitives terms).term? x).map Term.unnumbered =
      ((ofTerms primitives terms').term? x).map Term.unnumbered) :
    (Graph.entry? (ofTerms primitives terms) x).map Entry.reading =
      (Graph.entry? (ofTerms primitives terms') x).map Entry.reading := by
  have hreading : ∀ ts : List Term, (Graph.entry? (ofTerms primitives ts) x).map Entry.reading =
      (((ofTerms primitives ts).term? x).map Term.unnumbered).map fun t =>
        (Entry.ofTerm primitives t).reading := by
    intro ts
    rw [term?, entry?_ofTerms]
    simp only [Option.map_map]
    congr 1
    funext t
    exact (Term.reading_ofTerm_unnumbered primitives t).symm
  rw [hreading, hreading, h]

/-- Graphs that record alike what a term leads to agree on it. -/
theorem agreesOn_of_recordsAlike (hg : build primitives terms = .ok g)
    (hg' : build primitives terms' = .ok g') (hkey : g.declares key = true)
    (h : g.RecordsAlike g' key) :
    g.AgreesOn g' {x | Relation.ReflTransGen g.RefersTo key x} := by
  obtain ⟨rfl, haccepts⟩ := build_eq_ok_iff.mp hg
  obtain ⟨rfl, haccepts'⟩ := build_eq_ok_iff.mp hg'
  have hprimitives :
      (ofTerms primitives terms).primitives = (ofTerms primitives terms').primitives := rfl
  apply agreesOn_of_reading_eq hprimitives
  · intro x hx
    cases hdeclares : (ofTerms primitives terms).declares x with
    | true => exact reading_eq_of_term?_eq (h x hx hdeclares)
    | false =>
        -- another term refers to it, so it is a primitive type, which no term is in either graph
        have hprimitive : primitives.contains x = true := by
          rcases Relation.ReflTransGen.cases_tail hx with rfl | ⟨y, -, hrefers⟩
          · rw [hdeclares] at hkey
            cases hkey
          · rcases haccepts.declared_or_primitive hrefers with hx | hx
            · rw [hdeclares] at hx
              cases hx
            · exact hx
        rw [haccepts.entry?_eq_none hprimitive, haccepts'.entry?_eq_none hprimitive]
  · intro k hk x hrefers
    exact Relation.ReflTransGen.tail hk hrefers

/-- It is enough to compare the records of terms that refer to each other alone. -/
theorem recordsAlike_of_closed {keys : List Key} (hkey : key ∈ keys)
    (htargets : ∀ k ∈ keys, ∀ l ∈ g.links k, l.target ∈ keys)
    (hidentifiers : ∀ k ∈ keys, ∀ i ∈ g.declaredIdentifier? k, i ∈ keys)
    (hsame : ∀ x ∈ keys,
      (g.term? x).map Term.unnumbered = (g'.term? x).map Term.unnumbered) :
    g.RecordsAlike g' key := by
  rintro x hx -
  apply hsame
  induction hx with
  | refl => exact hkey
  | tail _ hrefers hk =>
      rcases hrefers with ⟨l, hl, rfl⟩ | hidentifier
      · exact htargets _ hk l hl
      · exact hidentifiers _ hk _ hidentifier

/-- Terms that are added to others change nothing of what is recorded of these. -/
theorem recordsAlike_of_included (hg : build primitives terms = .ok g)
    (hg' : build primitives terms' = .ok g')
    (hincluded : Term.Included terms terms') (key : Key) : g.RecordsAlike g' key := by
  obtain ⟨rfl, -⟩ := build_eq_ok_iff.mp hg
  obtain ⟨rfl, haccepts'⟩ := build_eq_ok_iff.mp hg'
  intro x _ hdeclares
  obtain ⟨t, ht⟩ : ∃ t, (terms.find? fun u => u.key == x) = some t := by
    rw [declares, entry?_ofTerms, Option.isSome_map] at hdeclares
    exact Option.isSome_iff_exists.mp hdeclares
  obtain ⟨t', ht', hsame⟩ := hincluded t (List.mem_of_find?_eq_some ht)
  have hkey : t'.key = x := by
    rw [← Term.unnumbered_key, hsame, Term.unnumbered_key, key_eq_of_find? ht]
  have hfind' := (find?_key_eq_some_iff haccepts'.nodup).mpr ⟨ht', hkey⟩
  rw [term?, term?, entry?_ofTerms, entry?_ofTerms, ht, hfind']
  exact congrArg some hsame.symm

end Graph

end Glossary
