import Glossary.Proofs.Lookups

/-!
Which terms can be linked, said of the terms as a whole. Neither their order nor the order of their
statements matters, and terms that cannot be linked are refused for a fault that they have.
-/

namespace Glossary

open Fallible

/-- The key is that of one of the primitive types. -/
def NamesPrimitive (names : List String) (key : Key) : Prop :=
  ∃ name ∈ names, Name.key name = key

/-- The term stands for a value: it declares a type, or states that it is of a primitive type. -/
def Term.StandsForValue (t : Term) : Prop :=
  (∃ type, t.declaredType = some type ∧ type ≠ "") ∨
    ∃ r ∈ t.relationships, r.relation = .primitiveType

/-- The same term with its statements in another order. -/
def Term.Restates (t t' : Term) : Prop :=
  ∃ rs, t.relationships.Perm rs ∧ t' = { t with relationships := rs }

/-- The same terms in another order, with the statements of each in another order. -/
def Reorders (terms terms' : List Term) : Prop :=
  ∃ middle, terms.Perm middle ∧ List.Forall₂ Term.Restates middle terms'

/-- The conditions under which terms can be linked. -/
structure IsLinkable (names : List String) (terms : List Term) : Prop where
  keys_nodup : (terms.map Term.key).Nodup
  key_fresh : ∀ t ∈ terms, ¬NamesPrimitive names t.key
  type_known : ∀ t ∈ terms, ∀ type, t.declaredType = some type → type ≠ "" →
    NamesPrimitive names (Name.key type)
  primitive_known : ∀ t ∈ terms, ∀ r ∈ t.relationships, r.relation = .primitiveType →
    NamesPrimitive names r.targetKey
  parent_declared : ∀ t ∈ terms, ∀ r ∈ t.relationships, r.relation = .inherits →
    ∃ u ∈ terms, u.key = r.targetKey ∧ ¬u.StandsForValue
  reference_known : ∀ t ∈ terms, ∀ r ∈ t.relationships,
    r.relation = .composes ∨ r.relation = .requires →
      (∃ u ∈ terms, u.key = r.targetKey) ∨ NamesPrimitive names r.targetKey
  identifier_value : ∀ t ∈ terms, ∀ i, t.declaredIdentifier = some i → i ≠ "" →
    (∃ u ∈ terms, u.key = Name.key i ∧ u.StandsForValue) ∨ NamesPrimitive names (Name.key i)

/-- The fault is found in the terms. -/
inductive HasFault (names : List String) (terms : List Term) : LinkError → Prop
  | duplicate (before after : List Term) (first t : Term) (hterms : terms = before ++ t :: after)
      (hfirst : first ∈ before) (hkey : first.key = t.key) :
      HasFault names terms (.duplicate t.name t.line first.name)
  | shadowsPrimitive (t : Term) (ht : t ∈ terms) (hprimitive : NamesPrimitive names t.key) :
      HasFault names terms (.shadowsPrimitive t.name)
  | undefinedType (t : Term) (type : String) (ht : t ∈ terms) (htype : t.declaredType = some type)
      (hne : type ≠ "") (hunknown : ¬NamesPrimitive names (Name.key type)) :
      HasFault names terms (.undefined type t.name "is a")
  | undefinedPrimitive (t : Term) (r : Relationship) (ht : t ∈ terms) (hr : r ∈ t.relationships)
      (hrelation : r.relation = .primitiveType) (hunknown : ¬NamesPrimitive names r.targetKey) :
      HasFault names terms (.undefined r.target t.name "is a")
  | undefinedTarget (t : Term) (r : Relationship) (ht : t ∈ terms) (hr : r ∈ t.relationships)
      (hdeclared : ∀ u ∈ terms, u.key ≠ r.targetKey)
      (hunknown : ¬NamesPrimitive names r.targetKey) :
      HasFault names terms (.undefined r.target t.name r.relation.verb)
  | inheritsScalar (t : Term) (r : Relationship) (parent : Term) (ht : t ∈ terms)
      (hr : r ∈ t.relationships) (hrelation : r.relation = .inherits) (hparent : parent ∈ terms)
      (hkey : parent.key = r.targetKey) (hvalue : parent.StandsForValue) :
      HasFault names terms
        (.inheritsScalar t.name r.target (parent.type?.getD "a primitive"))
  | inheritsPrimitive (t : Term) (r : Relationship) (ht : t ∈ terms) (hr : r ∈ t.relationships)
      (hrelation : r.relation = .inherits) (hprimitive : NamesPrimitive names r.targetKey) :
      HasFault names terms (.inheritsPrimitive r t.name)
  | undefinedIdentifier (t : Term) (i : String) (ht : t ∈ terms)
      (hidentifier : t.declaredIdentifier = some i) (hne : i ≠ "")
      (hdeclared : ∀ u ∈ terms, u.key ≠ Name.key i)
      (hunknown : ¬NamesPrimitive names (Name.key i)) :
      HasFault names terms (.undefined i t.name "is identified by")
  | entityIdentifier (t : Term) (i : String) (entity : Term) (ht : t ∈ terms)
      (hidentifier : t.declaredIdentifier = some i) (hne : i ≠ "") (hentity : entity ∈ terms)
      (hkey : entity.key = Name.key i) (hvalue : ¬entity.StandsForValue) :
      HasFault names terms (.identifiedByEntity t.name i)

/-- What is told of a fault is that a term is declared twice, that a name is not defined, or that
the graph cannot be built. -/
def Diagnostic.IsLinkage : Diagnostic → Prop
  | .duplicate _ _ _ => True
  | .graph _ _ => True
  | .undefined _ _ _ => True
  | _ => False

variable {names : List String} {terms terms' : List Term} {t t' : Term} {key : Key} {e : LinkError}

theorem Primitives.contains_ofNames_iff :
    (Primitives.ofNames names).contains key = true ↔ NamesPrimitive names key := by
  unfold Primitives.contains
  constructor
  · intro h
    obtain ⟨spelling, hspelling⟩ := Option.isSome_iff_exists.mp h
    obtain ⟨before, after, heq, -⟩ := List.lookup_eq_some_iff.mp hspelling
    have hmem : (key, spelling) ∈ (Primitives.ofNames names).entries := by simp [heq]
    obtain ⟨name, hname, heq⟩ := List.mem_map.mp hmem
    exact ⟨name, List.mem_reverse.mp hname, congrArg Prod.fst heq⟩
  · rintro ⟨name, hname, rfl⟩
    rw [← Option.ne_none_iff_isSome]
    intro hnone
    have hall := List.lookup_eq_none_iff.mp hnone (Name.key name, name)
      (List.mem_map_of_mem (List.mem_reverse.mpr hname))
    simp at hall

theorem Primitives.contains_ofNames_eq_false_iff :
    (Primitives.ofNames names).contains key = false ↔ ¬NamesPrimitive names key := by
  rw [← Primitives.contains_ofNames_iff, Bool.not_eq_true]

namespace Term

theorem type?_eq_some_iff {type : String} :
    t.type? = some type ↔ t.declaredType = some type ∧ type ≠ "" := by
  simp [type?, Option.filter_eq_some_iff]

theorem identifier?_eq_some_iff {i : String} :
    t.identifier? = some i ↔ t.declaredIdentifier = some i ∧ i ≠ "" := by
  simp [identifier?, Option.filter_eq_some_iff]

theorem isScalar_iff : t.isScalar = true ↔ t.StandsForValue := by
  have htype : t.type?.isSome = true ↔ ∃ type, t.declaredType = some type ∧ type ≠ "" := by
    simp only [Option.isSome_iff_exists, type?_eq_some_iff]
  rw [isScalar, Bool.or_eq_true, htype, List.any_eq_true, StandsForValue]
  simp

theorem isScalar_eq_false_iff : t.isScalar = false ↔ ¬t.StandsForValue := by
  rw [← isScalar_iff, Bool.not_eq_true]

theorem Restates.symm (h : t.Restates t') : t'.Restates t := by
  obtain ⟨rs, hperm, rfl⟩ := h
  exact ⟨t.relationships, hperm.symm, rfl⟩

theorem Restates.key_eq (h : t.Restates t') : t'.key = t.key := by
  obtain ⟨rs, -, rfl⟩ := h
  rfl

theorem Restates.mem_iff (h : t.Restates t') {r : Relationship} :
    r ∈ t'.relationships ↔ r ∈ t.relationships := by
  obtain ⟨rs, hperm, rfl⟩ := h
  exact hperm.mem_iff.symm

theorem Restates.standsForValue_iff (h : t.Restates t') :
    t'.StandsForValue ↔ t.StandsForValue := by
  have hmem : ∀ r, r ∈ t'.relationships ↔ r ∈ t.relationships := fun _ => h.mem_iff
  obtain ⟨rs, -, rfl⟩ := h
  simp only [StandsForValue, hmem]

end Term

section Order

theorem Reorders.symm (h : Reorders terms terms') : Reorders terms' terms := by
  obtain ⟨middle, hperm, hrestates⟩ := h
  have hflip : List.Forall₂ Term.Restates terms' middle :=
    hrestates.flip.imp fun _ _ h => Term.Restates.symm h
  have hcomp : Relation.Comp (List.Forall₂ Term.Restates) List.Perm terms' terms :=
    ⟨middle, hflip, hperm.symm⟩
  rw [List.forall₂_comp_perm_eq_perm_comp_forall₂] at hcomp
  obtain ⟨middle', hperm', hrestates'⟩ := hcomp
  exact ⟨middle', hperm', hrestates'⟩

theorem Reorders.exists_restates (h : Reorders terms terms') (ht : t ∈ terms) :
    ∃ t' ∈ terms', t.Restates t' := by
  obtain ⟨middle, hperm, hrestates⟩ := h
  obtain ⟨i, hi, rfl⟩ := List.mem_iff_getElem.mp (hperm.mem_iff.mp ht)
  have hi' : i < terms'.length := hrestates.length_eq ▸ hi
  exact ⟨terms'[i], List.getElem_mem hi', hrestates.get hi hi'⟩

theorem Reorders.keys_perm (h : Reorders terms terms') :
    (terms.map Term.key).Perm (terms'.map Term.key) := by
  obtain ⟨middle, hperm, hrestates⟩ := h
  have hkeys : middle.map Term.key = terms'.map Term.key := by
    clear hperm
    induction hrestates with
    | nil => rfl
    | cons hrestates _ ih => rw [List.map_cons, List.map_cons, hrestates.key_eq, ih]
  rw [← hkeys]
  exact hperm.map Term.key

end Order

namespace Graph

section Conditions

theorem allowsTarget_iff_of_relation {r : Relationship} : AllowsTarget (.ofNames names) terms r ↔
    (r.relation = .primitiveType → NamesPrimitive names r.targetKey) ∧
    (r.relation = .inherits → ∃ u ∈ terms, u.key = r.targetKey ∧ ¬u.StandsForValue) ∧
    (r.relation = .composes ∨ r.relation = .requires →
      (∃ u ∈ terms, u.key = r.targetKey) ∨ NamesPrimitive names r.targetKey) := by
  unfold AllowsTarget
  simp only [Primitives.contains_ofNames_iff, Term.isScalar_eq_false_iff]
  cases r.relation with
  | primitiveType => simp
  | inherits => simp
  | composes => simp
  | requires => simp

theorem isValueKey_iff_of_names : IsValueKey (.ofNames names) terms key ↔
    (∃ u ∈ terms, u.key = key ∧ u.StandsForValue) ∨ NamesPrimitive names key := by
  simp only [IsValueKey, Primitives.contains_ofNames_iff, Term.isScalar_iff]

theorem accepts_iff_isLinkable : Accepts (.ofNames names) terms ↔ IsLinkable names terms := by
  constructor
  · rintro ⟨hnodup, haccepts⟩
    have htargets : ∀ t ∈ terms, ∀ r ∈ t.relationships, _ := fun t ht r hr =>
      allowsTarget_iff_of_relation.mp ((haccepts t ht).targets_allowed r hr)
    constructor
    case keys_nodup => exact hnodup
    case key_fresh =>
      exact fun t ht => Primitives.contains_ofNames_eq_false_iff.mp (haccepts t ht).key_fresh
    case type_known =>
      intro t ht type htype hne
      exact Primitives.contains_ofNames_iff.mp
        ((haccepts t ht).type_known type (Term.type?_eq_some_iff.mpr ⟨htype, hne⟩))
    case primitive_known => exact fun t ht r hr => (htargets t ht r hr).1
    case parent_declared => exact fun t ht r hr => (htargets t ht r hr).2.1
    case reference_known => exact fun t ht r hr => (htargets t ht r hr).2.2
    case identifier_value =>
      intro t ht i hi hne
      exact isValueKey_iff_of_names.mp
        ((haccepts t ht).identifier_value i (Term.identifier?_eq_some_iff.mpr ⟨hi, hne⟩))
  · intro h
    refine ⟨h.keys_nodup, fun t ht => ?_⟩
    constructor
    case key_fresh => exact Primitives.contains_ofNames_eq_false_iff.mpr (h.key_fresh t ht)
    case type_known =>
      intro type htype
      obtain ⟨hdeclared, hne⟩ := Term.type?_eq_some_iff.mp htype
      exact Primitives.contains_ofNames_iff.mpr (h.type_known t ht type hdeclared hne)
    case targets_allowed =>
      intro r hr
      exact allowsTarget_iff_of_relation.mpr
        ⟨h.primitive_known t ht r hr, h.parent_declared t ht r hr, h.reference_known t ht r hr⟩
    case identifier_value =>
      intro i hi
      obtain ⟨hdeclared, hne⟩ := Term.identifier?_eq_some_iff.mp hi
      exact isValueKey_iff_of_names.mpr (h.identifier_value t ht i hdeclared hne)

theorem exists_build_iff_isLinkable :
    (∃ g, build (.ofNames names) terms = .ok g) ↔ IsLinkable names terms := by
  simp only [build_eq_ok_iff, accepts_iff_isLinkable, exists_eq_left]

end Conditions

end Graph

/-- All conditions are about which terms and which statements there are. -/
theorem IsLinkable.of_reorders (h : IsLinkable names terms) (horder : Reorders terms terms') :
    IsLinkable names terms' := by
  have hback : ∀ t' ∈ terms', ∃ t ∈ terms, t'.Restates t := fun _ ht =>
    horder.symm.exists_restates ht
  have hdeclared : ∀ u ∈ terms, ∀ p : Term → Prop, (∀ u', u.Restates u' → p u → p u') → p u →
      ∃ u' ∈ terms', u'.key = u.key ∧ p u' := by
    intro u hu p hp hpu
    obtain ⟨u', hu', hrestates⟩ := horder.exists_restates hu
    exact ⟨u', hu', hrestates.key_eq, hp u' hrestates hpu⟩
  constructor
  case keys_nodup => exact horder.keys_perm.nodup_iff.mp h.keys_nodup
  case key_fresh =>
    intro t' ht'
    obtain ⟨t, ht, hrestates⟩ := hback t' ht'
    rw [← hrestates.key_eq]
    exact h.key_fresh t ht
  case type_known =>
    intro t' ht' type htype hne
    obtain ⟨t, ht, rs, -, rfl⟩ := hback t' ht'
    exact h.type_known _ ht type htype hne
  case primitive_known =>
    intro t' ht' r hr
    obtain ⟨t, ht, hrestates⟩ := hback t' ht'
    exact h.primitive_known t ht r (hrestates.mem_iff.mpr hr)
  case parent_declared =>
    intro t' ht' r hr hrelation
    obtain ⟨t, ht, hrestates⟩ := hback t' ht'
    obtain ⟨u, hu, hkey, hvalue⟩ := h.parent_declared t ht r (hrestates.mem_iff.mpr hr) hrelation
    rw [← hkey]
    exact hdeclared u hu (fun u => ¬u.StandsForValue)
      (fun _ hrestates => mt hrestates.standsForValue_iff.mp) hvalue
  case reference_known =>
    intro t' ht' r hr hrelation
    obtain ⟨t, ht, hrestates⟩ := hback t' ht'
    refine (h.reference_known t ht r (hrestates.mem_iff.mpr hr) hrelation).imp_left ?_
    rintro ⟨u, hu, hkey⟩
    obtain ⟨u', hu', hkey', -⟩ := hdeclared u hu (fun _ => True) (fun _ _ _ => trivial) trivial
    exact ⟨u', hu', hkey'.trans hkey⟩
  case identifier_value =>
    intro t' ht' i hi hne
    obtain ⟨t, ht, rs, -, rfl⟩ := hback t' ht'
    refine (h.identifier_value _ ht i hi hne).imp_left ?_
    rintro ⟨u, hu, hkey, hvalue⟩
    rw [← hkey]
    exact hdeclared u hu Term.StandsForValue (fun _ hrestates => hrestates.standsForValue_iff.mpr)
      hvalue

namespace Graph

section Faults

theorem exists_of_checkKeys_eq_error {primitives : Primitives} {before : List Term}
    (h : checkKeys primitives before terms = .error e) :
    ∃ read t rest, terms = read ++ t :: rest ∧
      checkKey primitives (before ++ read) t = .error e := by
  induction terms generalizing before with
  | nil => cases h
  | cons t terms ih =>
      rw [checkKeys, bind_eq_error_iff] at h
      rcases h with h | ⟨-, -, h⟩
      · exact ⟨[], t, terms, rfl, by rwa [List.append_nil]⟩
      · obtain ⟨read, u, rest, rfl, hkey⟩ := ih h
        exact ⟨t :: read, u, rest, rfl, by rwa [List.append_assoc] at hkey⟩

theorem hasFault_of_checkKeys (h : checkKeys (.ofNames names) [] terms = .error e) :
    HasFault names terms e := by
  obtain ⟨before, t, after, hterms, hkey⟩ := exists_of_checkKeys_eq_error h
  rw [List.nil_append] at hkey
  unfold checkKey at hkey
  split at hkey
  · rename_i first hfirst
    obtain rfl := Except.error.inj hkey
    exact .duplicate before after first t hterms (List.mem_of_find?_eq_some hfirst)
      (key_eq_of_find? hfirst)
  · split at hkey
    · rename_i hprimitive
      obtain rfl := Except.error.inj hkey
      exact .shadowsPrimitive t (by simp [hterms]) (Primitives.contains_ofNames_iff.mp hprimitive)
    · cases hkey

theorem hasFault_of_checkType (ht : t ∈ terms)
    (h : (ofTerms (.ofNames names) terms).checkType t = .error e) : HasFault names terms e := by
  unfold checkType at h
  split at h
  · cases h
  · rename_i type htype
    obtain ⟨hdeclared, hne⟩ := Term.type?_eq_some_iff.mp htype
    split at h
    · cases h
    · rename_i hunknown
      obtain rfl := Except.error.inj h
      exact .undefinedType t type ht hdeclared hne (mt Primitives.contains_ofNames_iff.mpr hunknown)

theorem forall_key_ne_of_find? (h : (terms.find? fun u => u.key == key) = none) :
    ∀ u ∈ terms, u.key ≠ key := by
  rintro u hu rfl
  exact find?_key_eq_none_iff.mp h (List.mem_map_of_mem hu)

theorem hasFault_of_checkLink (ht : t ∈ terms) {r : Relationship} (hr : r ∈ t.relationships)
    (htarget : r.targetKey = key)
    (h : (ofTerms (.ofNames names) terms).checkLink t ⟨r, key⟩ = .error e) :
    HasFault names terms e := by
  unfold checkLink at h
  dsimp only at h
  subst htarget
  rw [entry?_ofTerms,
    show (ofTerms (.ofNames names) terms).primitives = .ofNames names from rfl] at h
  by_cases hrelation : r.relation = .primitiveType
  · rw [if_pos hrelation] at h
    split_ifs at h with hprimitive
    obtain rfl := Except.error.inj h
    exact .undefinedPrimitive t r ht hr hrelation
      (mt Primitives.contains_ofNames_iff.mpr hprimitive)
  · rw [if_neg hrelation] at h
    cases hfind : terms.find? fun u => u.key == r.targetKey with
    | some u =>
        rw [hfind] at h
        dsimp only [Option.map_some, Entry.ofTerm] at h
        split_ifs at h with hscalar
        obtain rfl := Except.error.inj h
        exact .inheritsScalar t r u ht hr hscalar.1 (List.mem_of_find?_eq_some hfind)
          (key_eq_of_find? hfind) (Term.isScalar_iff.mp hscalar.2)
    | none =>
        rw [hfind] at h
        dsimp only [Option.map_none] at h
        split_ifs at h with hprimitive hinherits
        · obtain rfl := Except.error.inj h
          exact .inheritsPrimitive t r ht hr hinherits
            (Primitives.contains_ofNames_iff.mp hprimitive)
        · obtain rfl := Except.error.inj h
          exact .undefinedTarget t r ht hr (forall_key_ne_of_find? hfind)
            (mt Primitives.contains_ofNames_iff.mpr hprimitive)

theorem hasFault_of_checkIdentifier (ht : t ∈ terms)
    (h : (ofTerms (.ofNames names) terms).checkIdentifier t = .error e) :
    HasFault names terms e := by
  unfold checkIdentifier at h
  split at h
  · cases h
  · rename_i i hidentifier
    obtain ⟨hdeclared, hne⟩ := Term.identifier?_eq_some_iff.mp hidentifier
    rw [entry?_ofTerms,
      show (ofTerms (.ofNames names) terms).primitives = .ofNames names from rfl] at h
    cases hfind : terms.find? fun u => u.key == Name.key i with
    | some u =>
        rw [hfind] at h
        dsimp only [Option.map_some, Entry.ofTerm] at h
        split_ifs at h with hscalar
        obtain rfl := Except.error.inj h
        exact .entityIdentifier t i u ht hdeclared hne (List.mem_of_find?_eq_some hfind)
          (key_eq_of_find? hfind) (mt Term.isScalar_iff.mpr hscalar)
    | none =>
        rw [hfind] at h
        dsimp only [Option.map_none] at h
        split_ifs at h with hprimitive
        obtain rfl := Except.error.inj h
        exact .undefinedIdentifier t i ht hdeclared hne (forall_key_ne_of_find? hfind)
          (mt Primitives.contains_ofNames_iff.mpr hprimitive)

/-- Terms are refused for a fault that they have. -/
theorem hasFault_of_build (h : build (.ofNames names) terms = .error e) :
    HasFault names terms e := by
  rcases bind_eq_error_iff.mp h with h | ⟨-, -, h⟩
  · exact hasFault_of_checkKeys h
  · rcases bind_eq_error_iff.mp h with h | ⟨-, -, h⟩
    · obtain ⟨entry, hentry, h⟩ := exists_of_forM_eq_error h
      obtain ⟨t, ht, rfl⟩ := List.mem_map.mp hentry
      rcases bind_eq_error_iff.mp h with h | ⟨-, -, h⟩
      · exact hasFault_of_checkType ht h
      · rcases bind_eq_error_iff.mp h with h | ⟨-, -, h⟩
        · obtain ⟨link, hlink, h⟩ := exists_of_forM_eq_error h
          obtain ⟨r, hr, rfl⟩ := List.mem_map.mp hlink
          exact hasFault_of_checkLink ht hr rfl h
        · exact hasFault_of_checkIdentifier ht h
    · cases h

end Faults

/-- The primitive types of scalar terms and the names of all targets are found. -/
def FindsTargets (g : Graph) : Prop :=
  ∀ e ∈ g.entries, (e.term.isScalar = true → e.primitive.isSome = true) ∧
    ∀ l ∈ e.links, g.Knows l.target

theorem findsTargets (h : Accepts (.ofNames names) terms) :
    (ofTerms (.ofNames names) terms).FindsTargets := by
  intro e he
  refine ⟨(isClosed h).scalar_typed e he, ?_⟩
  obtain ⟨t, ht, rfl⟩ := List.mem_map.mp he
  refine List.forall_mem_map.mpr fun r hr => ?_
  exact knows_iff.mpr (h.target_known ht hr)

/-- Terms are linked exactly when they are linkable, in whatever order they and their statements
come. Otherwise they are refused for a fault that they have. -/
theorem build_decidesLinkable (names : List String) (terms : List Term) :
    ((∃ g, build (.ofNames names) terms = .ok g) ↔ IsLinkable names terms) ∧
      (∀ g, build (.ofNames names) terms = .ok g → g.FindsTargets) ∧
      (∀ e, build (.ofNames names) terms = .error e →
        HasFault names terms e ∧ e.diagnostic.IsLinkage) ∧
      ∀ terms', Reorders terms terms' →
        ((∃ g, build (.ofNames names) terms = .ok g) ↔
          ∃ g, build (.ofNames names) terms' = .ok g) := by
  refine ⟨exists_build_iff_isLinkable, fun g hg => ?_, fun e he => ?_, fun terms' horder => ?_⟩
  · obtain ⟨rfl, haccepts⟩ := build_eq_ok_iff.mp hg
    exact findsTargets haccepts
  · refine ⟨hasFault_of_build he, ?_⟩
    cases e <;> trivial
  · rw [exists_build_iff_isLinkable, exists_build_iff_isLinkable]
    exact ⟨fun h => h.of_reorders horder, fun h => h.of_reorders horder.symm⟩

/-- A parcel, which inherits from a thing that is declared after it, and its weight. -/
def parcelTerms : List Term := [
  ⟨"Parcel", "What is sent.", none, some "Weight",
    [⟨.inherits, "Parcel", "Thing", some 3⟩, ⟨.requires, "Parcel", "Weight", some 4⟩,
      ⟨.composes, "Parcel", "Date", some 5⟩], some 1⟩,
  ⟨"Weight", "How heavy it is.", some "Decimal", none,
    [⟨.primitiveType, "Weight", "Decimal", some 9⟩], some 7⟩,
  ⟨"Thing", "What there is.", none, none, [], some 11⟩]

/-- The same terms the other way round, with the statements about a parcel in another order. -/
def turnedTerms : List Term := [
  ⟨"Thing", "What there is.", none, none, [], some 11⟩,
  ⟨"Weight", "How heavy it is.", some "Decimal", none,
    [⟨.primitiveType, "Weight", "Decimal", some 9⟩], some 7⟩,
  ⟨"Parcel", "What is sent.", none, some "Weight",
    [⟨.composes, "Parcel", "Date", some 5⟩, ⟨.inherits, "Parcel", "Thing", some 3⟩,
      ⟨.requires, "Parcel", "Weight", some 4⟩], some 1⟩]

theorem reorders_turnedTerms : Reorders parcelTerms turnedTerms := by
  refine ⟨parcelTerms.reverse, by decide, ?_⟩
  exact .cons ⟨[], .refl _, rfl⟩ (.cons ⟨_, .refl _, rfl⟩ (.cons ⟨_, by decide, rfl⟩ .nil))

theorem parcel_decidesLinkable : IsLinkable builtInPrimitives parcelTerms ∧
    Reorders parcelTerms turnedTerms ∧
    (∃ g, build (.ofNames builtInPrimitives) turnedTerms = .ok g ∧ g.FindsTargets) ∧
    build (.ofNames builtInPrimitives) parcelTerms.dropLast =
      .error (.undefined "Thing" "Parcel" "is a") ∧
    HasFault builtInPrimitives parcelTerms.dropLast (.undefined "Thing" "Parcel" "is a") := by
  obtain ⟨hlinkable, -, -, horder⟩ := build_decidesLinkable builtInPrimitives parcelTerms
  obtain ⟨-, hfinds, -⟩ := build_decidesLinkable builtInPrimitives turnedTerms
  obtain ⟨-, -, hfault, -⟩ := build_decidesLinkable builtInPrimitives parcelTerms.dropLast
  have hbuilt : ∃ g, build (.ofNames builtInPrimitives) parcelTerms = .ok g := ⟨_, rfl⟩
  obtain ⟨g, hg⟩ := (horder _ reorders_turnedTerms).mp hbuilt
  exact ⟨hlinkable.mp hbuilt, reorders_turnedTerms, ⟨g, hg, hfinds g hg⟩, rfl, (hfault _ rfl).1⟩

end Graph

end Glossary
