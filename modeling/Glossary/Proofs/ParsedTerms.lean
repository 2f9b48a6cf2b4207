import Glossary.Proofs.Acceptance
import Glossary.Proofs.Declarations
import Glossary.Proofs.Outlines
import Glossary.Proofs.Reordering

/-!
What can be relied on in the terms of every dictionary that is read, and what is left for linking to
refuse in them.
-/

namespace Glossary

open Fallible

theorem Primitives.key_of_spelling? {names : List String} {key : Key} {type : String}
    (h : (Primitives.ofNames names).spelling? key = some type) : Name.key type = key := by
  obtain ⟨before, after, heq, -⟩ := List.lookup_eq_some_iff.mp h
  have hmem : (key, type) ∈ (Primitives.ofNames names).entries := by simp [heq]
  obtain ⟨name, -, heq⟩ := List.mem_map.mp hmem
  obtain ⟨rfl, rfl⟩ := Prod.mk.inj heq
  rfl

namespace Dictionary

open Text

/-- The statements of a term agree with each other and with what they declare. -/
structure Declared.IsConsistent (primitives : Primitives) (name : String) (d : Declared) :
    Prop where
  source_eq : ∀ r ∈ d.relationships, r.source = name
  targets_nodup : (d.relationships.map Relationship.targetKey).Nodup
  parent_notPrimitive : ∀ r ∈ d.relationships, r.relation = .inherits →
    primitives.spelling? r.targetKey = none
  typed_iff : (∃ r ∈ d.relationships, r.relation = .primitiveType) ↔ d.type.isSome = true
  type_eq : ∀ r ∈ d.relationships, r.relation = .primitiveType →
    d.type = some r.target ∧ primitives.spelling? r.targetKey = some r.target
  identifier_ne : ∀ i, d.identifier = some i → Name.key i ≠ Name.key name

end Dictionary

def Term.declared (t : Term) : Dictionary.Declared :=
  ⟨t.declaredType, t.declaredIdentifier, t.relationships⟩

/-- What holds of every term that is read. -/
structure Term.IsWellFormed (primitives : Primitives) (t : Term) : Prop where
  key_fresh : primitives.contains t.key = false
  definition_ne : t.definition ≠ ""
  definition_trimmed : Text.trim t.definition.toList = t.definition.toList
  consistent : t.declared.IsConsistent primitives t.name
  typed_alone : t.declaredType.isSome = true →
    t.relationships.length = 1 ∧ t.declaredIdentifier = none

/-- The statements of a term stand on lines of their own, one below the other, under its heading. -/
def Term.IsNumbered (t : Term) : Prop :=
  ∃ (first : Nat) (below : List Nat), t.line = some (first : Int) ∧
    t.relationships.map Relationship.line = below.map (fun n : Nat => some (n : Int)) ∧
    (first :: below).Pairwise (· < ·)

namespace Dictionary

open Text

variable {primitives : Primitives} {names : List String} {name body text : String} {line : Nat}
  {d next last : Declared} {s : Statement} {b : Block} {t : Term} {ts : List Term}
  {ss : List (Nat × String)}

namespace Declared

theorem isConsistent_nothing (primitives : Primitives) (name : String) :
    nothing.IsConsistent primitives name := by
  constructor <;> simp [nothing]

theorem Takes.isConsistent (h : d.Takes (.ofNames names) name line s next)
    (hverb : s.verb ≠ some (.relates .primitiveType))
    (hd : d.IsConsistent (.ofNames names) name) : next.IsConsistent (.ofNames names) name := by
  have hnodup : ∀ r : Relationship, r.targetKey ∉ d.relationships.map Relationship.targetKey →
      ((d.relationships ++ [r]).map Relationship.targetKey).Nodup := by
    intro r hr
    rw [List.map_append, List.map_singleton, ← List.concat_eq_append]
    exact hd.targets_nodup.concat hr
  cases h with
  | identifier _ _ hkey =>
      constructor
      case source_eq => exact hd.source_eq
      case targets_nodup => exact hd.targets_nodup
      case parent_notPrimitive => exact hd.parent_notPrimitive
      case typed_iff => exact hd.typed_iff
      case type_eq => exact hd.type_eq
      case identifier_ne =>
        intro i hi
        obtain rfl := Option.some.inj hi
        exact hkey
  | typed type _ htype hfirst hfresh =>
      have hkey : Name.key type = Name.key (Name.display s.object) :=
        Primitives.key_of_spelling? htype
      have huntyped : ∀ r ∈ d.relationships, r.relation ≠ .primitiveType := by
        intro r hr hrelation
        have hsome := hd.typed_iff.mp ⟨r, hr, hrelation⟩
        rw [hfirst] at hsome
        cases hsome
      constructor
      case source_eq =>
        exact List.forall_mem_append.mpr ⟨hd.source_eq, List.forall_mem_singleton.mpr rfl⟩
      case targets_nodup => exact hnodup _ hfresh
      case parent_notPrimitive =>
        exact List.forall_mem_append.mpr
          ⟨hd.parent_notPrimitive, List.forall_mem_singleton.mpr nofun⟩
      case typed_iff => simp
      case type_eq =>
        refine List.forall_mem_append.mpr ⟨fun r hr hrelation => ?_, ?_⟩
        · exact absurd hrelation (huntyped r hr)
        · exact List.forall_mem_singleton.mpr fun _ => ⟨rfl,
          (congrArg (Primitives.ofNames names).spelling? hkey).trans htype⟩
      case identifier_ne => exact hd.identifier_ne
  | related relation hrelates hplain hfresh =>
      have hother : relation ≠ .primitiveType := by
        rintro rfl
        exact hverb hrelates
      constructor
      case source_eq =>
        exact List.forall_mem_append.mpr ⟨hd.source_eq, List.forall_mem_singleton.mpr rfl⟩
      case targets_nodup => exact hnodup _ hfresh
      case parent_notPrimitive =>
        exact List.forall_mem_append.mpr
          ⟨hd.parent_notPrimitive, List.forall_mem_singleton.mpr hplain⟩
      case typed_iff =>
        rw [← hd.typed_iff]
        simp [or_and_right, exists_or, hother]
      case type_eq =>
        refine List.forall_mem_append.mpr ⟨hd.type_eq, ?_⟩
        exact List.forall_mem_singleton.mpr fun h => absurd h hother
      case identifier_ne => exact hd.identifier_ne

theorem isConsistent_addStatements (hd : d.IsConsistent (.ofNames names) name)
    (h : d.addStatements (.ofNames names) name ss = .ok last) :
    last.IsConsistent (.ofNames names) name := by
  induction ss generalizing d with
  | nil =>
      obtain rfl := Except.ok.inj h
      exact hd
  | cons s ss ih =>
      obtain ⟨line, body⟩ := s
      obtain ⟨next, hnext, hrest⟩ := addStatements_cons_eq_ok_iff.mp h
      obtain ⟨s, hs, -, htakes⟩ := addStatement_eq_ok_iff.mp hnext
      exact ih (htakes.isConsistent (Statement.verb_ne_primitiveType hs) hd) hrest

/-- Whether a text makes a statement about another term, and not about the identifier. -/
def relates (body : String) : Bool :=
  (Statement.ofText? body.toList).any fun s => s.verb != some .identifiedBy

theorem Takes.map_line (h : d.Takes primitives name line s next)
    (hs : Statement.ofText? body.toList = some s) :
    next.relationships.map Relationship.line = d.relationships.map Relationship.line ++
      if relates body then [some (line : Int)] else [] := by
  cases h with
  | identifier hverb _ _ => simp [relates, hs, hverb]
  | typed type hverb _ _ _ => simp [relates, hs, hverb]
  | related relation hverb _ _ => simp [relates, hs, hverb]

/-- The lines of the relationships are those of the statements that relate the term to another. -/
theorem map_line_addStatements (h : d.addStatements primitives name ss = .ok last) :
    last.relationships.map Relationship.line = d.relationships.map Relationship.line ++
      (ss.filter fun s => relates s.2).map fun s => some (s.1 : Int) := by
  induction ss generalizing d with
  | nil =>
      obtain rfl := Except.ok.inj h
      simp
  | cons s ss ih =>
      obtain ⟨line, body⟩ := s
      obtain ⟨next, hnext, hrest⟩ := addStatements_cons_eq_ok_iff.mp h
      obtain ⟨s, hs, -, htakes⟩ := addStatement_eq_ok_iff.mp hnext
      rw [ih hrest, htakes.map_line hs]
      cases hrelates : relates body with
      | true => simp [hrelates]
      | false => simp [hrelates]

end Declared

section Blocks

/-- A block whose definition is made of texts that stand for themselves, and whose lines come one
after another before the line `next`. -/
structure Block.IsOrderly (next : Nat) (b : Block) : Prop where
  definition : ∀ text ∈ b.definition, text ≠ "" ∧ trim text.toList = text.toList
  increasing : (b.line :: b.statements.map Prod.fst).Pairwise (· < ·)
  lines_lt : ∀ n ∈ b.line :: b.statements.map Prod.fst, n < next

theorem LineShape.trim_of_plain {line : List Char} {text : String}
    (h : LineShape.ofLine? line = some (.plain text)) :
    text ≠ "" ∧ trim text.toList = text.toList := by
  unfold LineShape.ofLine? at h
  split at h
  · cases h
  · rename_i hsolid
    split at h
    · cases h
    · split at h
      · cases h
      · obtain rfl := LineShape.plain.inj (Option.some.inj h)
        rw [String.toList_ofList, trim_trim]
        refine ⟨fun hempty => hsolid ?_, rfl⟩
        rw [List.all_eq_true]
        exact trim_eq_nil_iff.mp (by simpa using congrArg String.toList hempty)

theorem isKept_isOrderly (ls : List (List Char)) : Outline.IsKept ls Block.IsOrderly where
  passed number b hb := ⟨hb.definition, hb.increasing, fun n hn => Nat.lt_succ_of_lt (hb.lines_lt n hn)⟩
  heading number name _ := ⟨by simp, by simp, by simp⟩
  bullet number b body _ hb := by
    have hlines : (b.withStatement number (String.ofList body)).statements.map Prod.fst =
        b.statements.map Prod.fst ++ [number] := by simp [Block.withStatement]
    constructor
    case definition => exact hb.definition
    case increasing =>
      rw [hlines, ← List.cons_append, List.pairwise_append]
      refine ⟨hb.increasing, List.pairwise_singleton _ _, fun n hn m hm => ?_⟩
      obtain rfl := List.mem_singleton.mp hm
      exact hb.lines_lt n hn
    case lines_lt =>
      rw [hlines, ← List.cons_append]
      refine List.forall_mem_append.mpr ⟨fun n hn => ?_, by simp⟩
      exact Nat.lt_succ_of_lt (hb.lines_lt n hn)
  plain number b text hshape hb := by
    obtain ⟨line, -, hshape⟩ := hshape
    constructor
    case definition =>
      exact List.forall_mem_append.mpr
        ⟨hb.definition, List.forall_mem_singleton.mpr (LineShape.trim_of_plain hshape)⟩
    case increasing => exact hb.increasing
    case lines_lt => exact fun n hn => Nat.lt_succ_of_lt (hb.lines_lt n hn)

theorem Block.isWellFormed_of_term {n : Nat} (hb : b.IsOrderly n)
    (h : b.term (.ofNames names) = .ok t) : t.IsWellFormed (.ofNames names) := by
  obtain ⟨hfresh, hdefinition, d, hd, halone, rfl⟩ := Block.term_eq_ok_iff.mp h
  have hconsistent := Declared.isConsistent_addStatements
    (Declared.isConsistent_nothing (.ofNames names) b.name) hd
  have htexts : ∀ text ∈ b.definition.map String.toList, text ≠ [] ∧ trim text = text := by
    refine List.forall_mem_map.mpr fun text htext => ?_
    obtain ⟨hne, htrim⟩ := hb.definition text htext
    exact ⟨by simpa using hne, htrim⟩
  obtain ⟨hne, htrim⟩ := trim_intercalate (by simpa using hdefinition) htexts
  have htoList : (" ".intercalate b.definition).toList =
      [' '].intercalate (b.definition.map String.toList) := String.toList_intercalate
  constructor
  case key_fresh => exact hfresh
  case definition_ne =>
    intro hempty
    rw [← htoList] at hne
    exact hne (by simpa using congrArg String.toList hempty)
  case definition_trimmed => rw [htoList, htrim]
  case consistent => exact hconsistent
  case typed_alone =>
    intro htype
    obtain ⟨hlength, hidentifier⟩ := halone htype
    obtain ⟨r, hr, -⟩ := hconsistent.typed_iff.mpr htype
    exact ⟨le_antisymm hlength (List.length_pos_of_mem hr), hidentifier⟩

/-- A term and its relationships stand where the heading and the statements about others do. -/
theorem Block.lines_of_term (h : b.term primitives = .ok t) : t.line = some (b.line : Int) ∧
    t.relationships.map Relationship.line =
      (b.statements.filter fun s => Declared.relates s.2).map fun s => some (s.1 : Int) := by
  obtain ⟨-, -, d, hd, -, rfl⟩ := Block.term_eq_ok_iff.mp h
  exact ⟨rfl, Declared.map_line_addStatements hd⟩

theorem Block.isNumbered_of_term {n : Nat} (hb : b.IsOrderly n) (h : b.term primitives = .ok t) :
    t.IsNumbered := by
  obtain ⟨hfirst, hlines⟩ := Block.lines_of_term h
  let relating := b.statements.filter fun s => Declared.relates s.2
  refine ⟨b.line, relating.map Prod.fst, hfirst, ?_, ?_⟩
  · rw [List.map_map]
    exact hlines
  · have hsublist : relating.Sublist b.statements := List.filter_sublist
    exact hb.increasing.sublist ((hsublist.map Prod.fst).cons_cons b.line)

end Blocks

end Dictionary

namespace Graph

variable {primitives : Primitives} {terms : List Term} {t : Term} {e : LinkError}

/-- A reference of one of the terms that leads nowhere, or to a term of the wrong kind. -/
inductive MissesReference (primitives : Primitives) (terms : List Term) : LinkError → Prop
  | undeclaredTarget (t : Term) (r : Relationship) (ht : t ∈ terms) (hr : r ∈ t.relationships)
      (hdeclared : ∀ u ∈ terms, u.key ≠ r.targetKey)
      (hprimitive : primitives.contains r.targetKey = false) :
      MissesReference primitives terms (.undefined r.target t.name r.relation.verb)
  | undeclaredIdentifier (t : Term) (identifier : String) (ht : t ∈ terms)
      (hidentifier : t.declaredIdentifier = some identifier)
      (hdeclared : ∀ u ∈ terms, u.key ≠ Name.key identifier)
      (hprimitive : primitives.contains (Name.key identifier) = false) :
      MissesReference primitives terms (.undefined identifier t.name "is identified by")
  | scalarParent (t : Term) (r : Relationship) (parent : Term) (ht : t ∈ terms)
      (hr : r ∈ t.relationships) (hrelation : r.relation = .inherits) (hparent : parent ∈ terms)
      (hkey : parent.key = r.targetKey) (hscalar : parent.isScalar = true) :
      MissesReference primitives terms
        (.inheritsScalar t.name r.target (parent.type?.getD "a primitive"))
  | entityIdentifier (t : Term) (identifier : String) (entity : Term) (ht : t ∈ terms)
      (hidentifier : t.declaredIdentifier = some identifier) (hentity : entity ∈ terms)
      (hkey : entity.key = Name.key identifier) (hscalar : entity.isScalar = false) :
      MissesReference primitives terms (.identifiedByEntity t.name identifier)

theorem checkType_of_isWellFormed (ht : t.IsWellFormed primitives) :
    (ofTerms primitives terms).checkType t = .ok () := by
  refine checkType_eq_ok_iff.mpr fun type htype => ?_
  have hdeclared : t.declaredType = some type := (Option.filter_eq_some_iff.mp htype).1
  obtain ⟨r, hr, hrelation⟩ := ht.consistent.typed_iff.mpr (Option.isSome_of_mem hdeclared)
  obtain ⟨htype, hspelling⟩ := ht.consistent.type_eq r hr hrelation
  obtain rfl : type = r.target := Option.some.inj (hdeclared.symm.trans htype)
  change (primitives.spelling? r.targetKey).isSome = true
  rw [hspelling]
  rfl

theorem missesReference_of_checkLink (ht : t ∈ terms) (hwf : t.IsWellFormed primitives)
    {r : Relationship} {target : Key} (hr : r ∈ t.relationships) (htarget : r.targetKey = target)
    (h : (ofTerms primitives terms).checkLink t ⟨r, target⟩ = .error e) :
    MissesReference primitives terms e := by
  unfold checkLink at h
  dsimp only at h
  subst htarget
  rw [entry?_ofTerms, show (ofTerms primitives terms).primitives = primitives from rfl] at h
  by_cases hrelation : r.relation = .primitiveType
  · have hcontains : primitives.contains r.targetKey = true :=
      Option.isSome_of_mem (hwf.consistent.type_eq r hr hrelation).2
    rw [if_pos hrelation, if_pos hcontains] at h
    cases h
  · rw [if_neg hrelation] at h
    cases hfind : terms.find? fun u => u.key == r.targetKey with
    | some u =>
        rw [hfind] at h
        dsimp only [Option.map_some, Entry.ofTerm] at h
        split_ifs at h with hscalar
        obtain rfl := Except.error.inj h
        exact .scalarParent t r u ht hr hscalar.1 (List.mem_of_find?_eq_some hfind)
          (key_eq_of_find? hfind) hscalar.2
    | none =>
        rw [hfind] at h
        dsimp only [Option.map_none] at h
        split_ifs at h with hcontains hinherits
        · have hnone := hwf.consistent.parent_notPrimitive r hr hinherits
          rw [Primitives.contains, hnone] at hcontains
          cases hcontains
        · obtain rfl := Except.error.inj h
          refine .undeclaredTarget t r ht hr (fun u hu hkey => ?_) (by simpa using hcontains)
          exact find?_key_eq_none_iff.mp hfind (hkey ▸ List.mem_map_of_mem hu)

theorem missesReference_of_checkIdentifier (ht : t ∈ terms)
    (h : (ofTerms primitives terms).checkIdentifier t = .error e) :
    MissesReference primitives terms e := by
  unfold checkIdentifier at h
  split at h
  · cases h
  · rename_i identifier hidentifier
    have hdeclared : t.declaredIdentifier = some identifier :=
      (Option.filter_eq_some_iff.mp hidentifier).1
    rw [entry?_ofTerms, show (ofTerms primitives terms).primitives = primitives from rfl] at h
    cases hfind : terms.find? fun u => u.key == Name.key identifier with
    | some u =>
        rw [hfind] at h
        dsimp only [Option.map_some, Entry.ofTerm] at h
        split_ifs at h with hscalar
        obtain rfl := Except.error.inj h
        exact .entityIdentifier t identifier u ht hdeclared (List.mem_of_find?_eq_some hfind)
          (key_eq_of_find? hfind) (by simpa using hscalar)
    | none =>
        rw [hfind] at h
        dsimp only [Option.map_none] at h
        split_ifs at h with hcontains
        obtain rfl := Except.error.inj h
        refine .undeclaredIdentifier t identifier ht hdeclared (fun u hu hkey => ?_)
          (by simpa using hcontains)
        exact find?_key_eq_none_iff.mp hfind (hkey ▸ List.mem_map_of_mem hu)

/-- All that linking can refuse in well-formed terms with keys of their own. -/
theorem missesReference_of_build (hnodup : (terms.map Term.key).Nodup)
    (hterms : ∀ t ∈ terms, t.IsWellFormed primitives) (h : build primitives terms = .error e) :
    MissesReference primitives terms e := by
  have hkeys : checkKeys primitives [] terms = .ok () :=
    checkKeys_eq_ok_iff.mpr ⟨hnodup, fun t ht => ⟨List.not_mem_nil, (hterms t ht).key_fresh⟩⟩
  rcases bind_eq_error_iff.mp h with h | ⟨-, -, h⟩
  · rw [hkeys] at h
    cases h
  · rcases bind_eq_error_iff.mp h with h | ⟨-, -, h⟩
    · obtain ⟨entry, hentry, h⟩ := exists_of_forM_eq_error h
      obtain ⟨t, ht, rfl⟩ := List.mem_map.mp hentry
      rcases bind_eq_error_iff.mp h with h | ⟨-, -, h⟩
      · rw [show (Entry.ofTerm primitives t).term = t from rfl,
          checkType_of_isWellFormed (hterms t ht)] at h
        cases h
      · rcases bind_eq_error_iff.mp h with h | ⟨-, -, h⟩
        · obtain ⟨link, hlink, h⟩ := exists_of_forM_eq_error h
          obtain ⟨r, hr, rfl⟩ := List.mem_map.mp hlink
          exact missesReference_of_checkLink ht (hterms t ht) hr rfl h
        · exact missesReference_of_checkIdentifier ht h
    · cases h

end Graph

namespace Dictionary

variable {names : List String} {text : String} {t : Term} {ts : List Term}

theorem isWellFormed_of_mem (h : terms (.ofNames names) text = .ok ts) (ht : t ∈ ts) :
    t.IsWellFormed (.ofNames names) := by
  obtain ⟨bs, hbs, hts, -⟩ := terms_eq_ok_iff.mp h
  obtain ⟨b, hb, hterm⟩ := exists_of_mem_mapM hts ht
  exact Block.isWellFormed_of_term (forall_mem_blocks (isKept_isOrderly _) hbs b hb) hterm

/-- The terms of a dictionary have keys of their own and are well formed, and linking refuses them
only for a reference that leads nowhere or to a term of the wrong kind. -/
theorem terms_wellFormed (h : terms (.ofNames names) text = .ok ts) :
    (ts.map Term.key).Nodup ∧
      (∀ t ∈ ts, t.IsWellFormed (.ofNames names) ∧ t.IsNumbered) ∧
      ∀ e, Graph.build (.ofNames names) ts = .error e →
        Graph.MissesReference (.ofNames names) ts e := by
  obtain ⟨bs, hbs, hts, hnodup⟩ := terms_eq_ok_iff.mp h
  have horderly := forall_mem_blocks (isKept_isOrderly _) hbs
  have hterms : ∀ t ∈ ts, t.IsWellFormed (.ofNames names) ∧ t.IsNumbered := by
    intro t ht
    obtain ⟨b, hb, hterm⟩ := exists_of_mem_mapM hts ht
    exact ⟨Block.isWellFormed_of_term (horderly b hb) hterm,
      Block.isNumbered_of_term (horderly b hb) hterm⟩
  exact ⟨hnodup, hterms, fun e he =>
    Graph.missesReference_of_build hnodup (fun t ht => (hterms t ht).1) he⟩

/-- A customer inherits from a person whom nobody declares. -/
def salesText : String :=
  "# Customer\nWho buys\n  from us.\n- customer is a Person\n- Customer is identified by E  Mail\n" ++
    "- Customer must have an Address.\n\n# E Mail\nWhere letters go.\n- E mail is a string\n"

def salesTerms : List Term := [
  ⟨"Customer", "Who buys from us.", none, some "E Mail", [
    ⟨.inherits, "Customer", "Person", some 4⟩,
    ⟨.requires, "Customer", "Address", some 6⟩], some 1⟩,
  ⟨"E Mail", "Where letters go.", some "String", none,
    [⟨.primitiveType, "E Mail", "String", some 10⟩], some 8⟩]

theorem terms_salesText : terms (.ofNames builtInPrimitives) salesText = .ok salesTerms :=
  eq_ok_of_toOption_eq_some (by decide +kernel)

theorem sales_wellFormed : terms (.ofNames builtInPrimitives) salesText = .ok salesTerms ∧
    (∀ t ∈ salesTerms, t.IsWellFormed (.ofNames builtInPrimitives) ∧ t.IsNumbered) ∧
    Graph.build (.ofNames builtInPrimitives) salesTerms =
      .error (.undefined "Person" "Customer" "is a") ∧
    Graph.MissesReference (.ofNames builtInPrimitives) salesTerms
      (.undefined "Person" "Customer" "is a") := by
  obtain ⟨-, hterms, hmisses⟩ := terms_wellFormed terms_salesText
  exact ⟨terms_salesText, hterms, rfl, hmisses _ rfl⟩

end Dictionary

end Glossary
