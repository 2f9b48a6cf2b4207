import Mathlib.Data.List.Nodup
import Glossary.Graph.Build
import Glossary.Proofs.Fallible

/-!
Which terms can be linked. The conditions are about the terms one by one, and about which terms
there are, so the order of the terms does not matter.
-/

namespace Glossary

open Fallible

theorem key_eq_of_find? {terms : List Term} {key : Key} {t : Term}
    (h : (terms.find? fun u => u.key == key) = some t) : t.key = key := by
  simpa using List.find?_some h

theorem find?_key_eq_some_iff {terms : List Term} (hnodup : (terms.map Term.key).Nodup) {key : Key}
    {t : Term} : (terms.find? fun u => u.key == key) = some t ↔ t ∈ terms ∧ t.key = key := by
  constructor
  · intro h
    exact ⟨List.mem_of_find?_eq_some h, key_eq_of_find? h⟩
  · rintro ⟨ht, rfl⟩
    cases hfind : terms.find? fun u => u.key == t.key with
    | none =>
        have hne := List.find?_eq_none.mp hfind t ht
        simp at hne
    | some u =>
        have hu := List.mem_of_find?_eq_some hfind
        rw [List.inj_on_of_nodup_map hnodup hu ht (key_eq_of_find? hfind)]

theorem find?_key_eq_none_iff {terms : List Term} {key : Key} :
    (terms.find? fun u => u.key == key) = none ↔ key ∉ terms.map Term.key := by
  rw [List.find?_eq_none, List.mem_map, not_exists]
  simp

theorem exists_key_iff {terms : List Term} (hnodup : (terms.map Term.key).Nodup) (key : Key)
    (p : Term → Prop) : (∃ u ∈ terms, u.key = key ∧ p u) ↔
      ∃ u, (terms.find? fun u => u.key == key) = some u ∧ p u := by
  simp only [find?_key_eq_some_iff hnodup, and_assoc]

namespace Graph

/-- The target of a statement is of the kind that its relation calls for. -/
def AllowsTarget (primitives : Primitives) (terms : List Term) (r : Relationship) : Prop :=
  match r.relation with
  | .primitiveType => primitives.contains r.targetKey = true
  | .inherits => ∃ u ∈ terms, u.key = r.targetKey ∧ u.isScalar = false
  | _ => (∃ u ∈ terms, u.key = r.targetKey) ∨ primitives.contains r.targetKey = true

/-- The key is that of a scalar term or of a primitive type. -/
def IsValueKey (primitives : Primitives) (terms : List Term) (key : Key) : Prop :=
  (∃ u ∈ terms, u.key = key ∧ u.isScalar = true) ∨ primitives.contains key = true

/-- What linking asks of a term among others. -/
structure AcceptsTerm (primitives : Primitives) (terms : List Term) (t : Term) : Prop where
  key_fresh : primitives.contains t.key = false
  type_known : ∀ type, t.type? = some type → primitives.contains (Name.key type) = true
  targets_allowed : ∀ r ∈ t.relationships, AllowsTarget primitives terms r
  identifier_value : ∀ i, t.identifier? = some i → IsValueKey primitives terms (Name.key i)

/-- What linking asks of terms. -/
structure Accepts (primitives : Primitives) (terms : List Term) : Prop where
  nodup : (terms.map Term.key).Nodup
  accepts_term : ∀ t ∈ terms, AcceptsTerm primitives terms t

variable {primitives : Primitives} {terms before : List Term} {t : Term}

theorem checkKey_eq_ok_iff : checkKey primitives before t = .ok () ↔
    t.key ∉ before.map Term.key ∧ primitives.contains t.key = false := by
  unfold checkKey
  cases hfind : before.find? fun first => first.key == t.key with
  | some first =>
      have hmem : t.key ∈ before.map Term.key := by
        rw [← key_eq_of_find? hfind]
        exact List.mem_map_of_mem (List.mem_of_find?_eq_some hfind)
      simp [hmem]
  | none =>
      have hfresh := find?_key_eq_none_iff.mp hfind
      cases hcontains : primitives.contains t.key with
      | true => simp
      | false => simp [hfresh]

theorem checkKeys_eq_ok_iff : checkKeys primitives before terms = .ok () ↔
    (terms.map Term.key).Nodup ∧
      ∀ t ∈ terms, t.key ∉ before.map Term.key ∧ primitives.contains t.key = false := by
  induction terms generalizing before with
  | nil => simp [checkKeys]
  | cons t terms ih =>
      have hsplit : ∀ u : Term, u.key ∉ (before ++ [t]).map Term.key ↔
          u.key ∉ before.map Term.key ∧ u.key ≠ t.key := by
        intro u
        rw [List.map_append, List.mem_append, List.map_singleton, List.mem_singleton, not_or]
      -- the terms after `t` are checked against `t` too, which makes the keys distinct
      rw [checkKeys, bind_eq_ok_iff, List.map_cons, List.nodup_cons, List.forall_mem_cons]
      constructor
      · rintro ⟨⟨⟩, hkey, hrest⟩
        obtain ⟨hnodup, hterms⟩ := ih.mp hrest
        refine ⟨⟨?_, hnodup⟩, checkKey_eq_ok_iff.mp hkey, ?_⟩
        · intro hmem
          obtain ⟨u, hu, heq⟩ := List.mem_map.mp hmem
          exact ((hsplit u).mp (hterms u hu).1).2 heq
        · intro u hu
          exact ⟨((hsplit u).mp (hterms u hu).1).1, (hterms u hu).2⟩
      · rintro ⟨⟨hfresh, hnodup⟩, hkey, hterms⟩
        refine ⟨(), checkKey_eq_ok_iff.mpr hkey, ih.mpr ⟨hnodup, ?_⟩⟩
        intro u hu
        refine ⟨(hsplit u).mpr ⟨(hterms u hu).1, ?_⟩, (hterms u hu).2⟩
        intro heq
        exact hfresh (heq ▸ List.mem_map_of_mem hu)

theorem entry?_ofTerms (primitives : Primitives) (terms : List Term) (key : Key) :
    Graph.entry? (ofTerms primitives terms) key =
      (terms.find? fun t => t.key == key).map (Entry.ofTerm primitives) := by
  unfold ofTerms entry?
  rw [List.find?_map]
  rfl

theorem terms_ofTerms (primitives : Primitives) (terms : List Term) :
    Graph.terms (ofTerms primitives terms) = terms := by
  simp [Graph.terms, ofTerms, Entry.ofTerm, Function.comp_def]

theorem checkType_eq_ok_iff {g : Graph} : g.checkType t = .ok () ↔
    ∀ type, t.type? = some type → g.primitives.contains (Name.key type) = true := by
  unfold checkType
  cases t.type? with
  | none => simp
  | some type => simp

theorem checkLink_eq_ok_iff {g : Graph} {l : Link} : g.checkLink t l = .ok () ↔
    match l.relation with
    | .primitiveType => g.primitives.contains l.target = true
    | .inherits => ∃ e, g.entry? l.target = some e ∧ e.term.isScalar = false
    | _ => (∃ e, g.entry? l.target = some e) ∨ g.primitives.contains l.target = true := by
  obtain ⟨⟨relation, source, spelling, line⟩, target⟩ := l
  dsimp only [checkLink, Link.relation]
  cases g.entry? target with
  | some e =>
      cases relation with
      | primitiveType => simp
      | inherits => simp
      | composes => simp
      | requires => simp
  | none =>
      cases relation with
      | primitiveType => simp
      | inherits =>
          simp only [reduceCtorEq, if_false, if_true, false_and, exists_false, iff_false]
          split
          · simp
          · simp
      | composes => simp
      | requires => simp

theorem checkIdentifier_eq_ok_iff {g : Graph} : g.checkIdentifier t = .ok () ↔
    ∀ i, t.identifier? = some i →
      match g.entry? (Name.key i) with
      | some e => e.term.isScalar = true
      | none => g.primitives.contains (Name.key i) = true := by
  unfold checkIdentifier
  cases t.identifier? with
  | none => simp
  | some i =>
      cases hentry : g.entry? (Name.key i) with
      | some e => simp [hentry]
      | none => simp [hentry]

theorem allowsTarget_iff (hnodup : (terms.map Term.key).Nodup) {r : Relationship} :
    AllowsTarget primitives terms r ↔
      match r.relation with
      | .primitiveType => primitives.contains r.targetKey = true
      | .inherits => ∃ e, Graph.entry? (ofTerms primitives terms) r.targetKey = some e ∧
          e.term.isScalar = false
      | _ => (∃ e, Graph.entry? (ofTerms primitives terms) r.targetKey = some e) ∨
          primitives.contains r.targetKey = true := by
  have hexists := exists_key_iff hnodup r.targetKey fun _ => True
  simp only [and_true] at hexists
  unfold AllowsTarget
  simp only [entry?_ofTerms, exists_key_iff hnodup, hexists, Option.map_eq_some_iff]
  cases r.relation with
  | primitiveType => rfl
  | inherits => simp [Entry.ofTerm]
  | composes => simp
  | requires => simp

theorem isValueKey_iff (hnodup : (terms.map Term.key).Nodup)
    (hfresh : ∀ u ∈ terms, primitives.contains u.key = false) {key : Key} :
    IsValueKey primitives terms key ↔
      match Graph.entry? (ofTerms primitives terms) key with
      | some e => e.term.isScalar = true
      | none => primitives.contains key = true := by
  unfold IsValueKey
  rw [entry?_ofTerms, exists_key_iff hnodup]
  cases hfind : terms.find? fun u => u.key == key with
  | some u =>
      have hcontains : primitives.contains key = false := by
        rw [← key_eq_of_find? hfind]
        exact hfresh u (List.mem_of_find?_eq_some hfind)
      simp [Entry.ofTerm, hcontains]
  | none => simp

theorem checkEntry_eq_ok_iff (hnodup : (terms.map Term.key).Nodup)
    (hfresh : ∀ u ∈ terms, primitives.contains u.key = false) (ht : t ∈ terms) :
    (ofTerms primitives terms).checkEntry (Entry.ofTerm primitives t) = .ok () ↔
      AcceptsTerm primitives terms t := by
  have hlinks : (t.relationships.map Link.ofRelationship).forM
      ((ofTerms primitives terms).checkLink t) = .ok () ↔
        ∀ r ∈ t.relationships, AllowsTarget primitives terms r := by
    rw [forM_eq_ok_iff, List.forall_mem_map]
    apply forall₂_congr
    intro r _
    rw [checkLink_eq_ok_iff, allowsTarget_iff hnodup]
    rfl
  have hidentifier : (ofTerms primitives terms).checkIdentifier t = .ok () ↔
      ∀ i, t.identifier? = some i → IsValueKey primitives terms (Name.key i) := by
    simp only [checkIdentifier_eq_ok_iff, isValueKey_iff hnodup hfresh]
    rfl
  constructor
  · intro h
    obtain ⟨⟨⟩, htype, h⟩ := bind_eq_ok_iff.mp h
    obtain ⟨⟨⟩, htargets, h⟩ := bind_eq_ok_iff.mp h
    exact ⟨hfresh t ht, checkType_eq_ok_iff.mp htype, hlinks.mp htargets, hidentifier.mp h⟩
  · intro h
    apply bind_eq_ok_iff.mpr ⟨(), checkType_eq_ok_iff.mpr h.type_known, _⟩
    apply bind_eq_ok_iff.mpr ⟨(), hlinks.mpr h.targets_allowed, _⟩
    exact hidentifier.mpr h.identifier_value

/-- Terms are linked exactly when they are accepted. -/
theorem build_eq_ok_iff {g : Graph} :
    build primitives terms = .ok g ↔ g = ofTerms primitives terms ∧ Accepts primitives terms := by
  have hentries : ∀ _ : (terms.map Term.key).Nodup,
      ∀ _ : ∀ u ∈ terms, primitives.contains u.key = false,
      (ofTerms primitives terms).entries.forM (ofTerms primitives terms).checkEntry = .ok () ↔
        ∀ t ∈ terms, AcceptsTerm primitives terms t := by
    intro hnodup hfresh
    rw [forM_eq_ok_iff, ofTerms, List.forall_mem_map]
    exact forall₂_congr fun t ht => checkEntry_eq_ok_iff hnodup hfresh ht
  constructor
  · intro h
    obtain ⟨⟨⟩, hkeys, h⟩ := bind_eq_ok_iff.mp h
    obtain ⟨⟨⟩, hchecks, h⟩ := bind_eq_ok_iff.mp h
    obtain ⟨hnodup, hkeys⟩ := checkKeys_eq_ok_iff.mp hkeys
    have hfresh : ∀ u ∈ terms, primitives.contains u.key = false := fun u hu => (hkeys u hu).2
    exact ⟨(Except.ok.inj h).symm, hnodup, (hentries hnodup hfresh).mp hchecks⟩
  · rintro ⟨rfl, hnodup, haccepts⟩
    have hfresh : ∀ u ∈ terms, primitives.contains u.key = false :=
      fun u hu => (haccepts u hu).key_fresh
    have hkeys : checkKeys primitives [] terms = .ok () :=
      checkKeys_eq_ok_iff.mpr ⟨hnodup, fun u hu => ⟨List.not_mem_nil, hfresh u hu⟩⟩
    apply bind_eq_ok_iff.mpr ⟨(), hkeys, _⟩
    exact bind_eq_ok_iff.mpr ⟨(), (hentries hnodup hfresh).mpr haccepts, rfl⟩

end Graph

end Glossary
