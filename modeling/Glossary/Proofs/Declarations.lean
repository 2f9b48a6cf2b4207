import Glossary.Dictionary.Terms
import Glossary.Proofs.Fallible
import Glossary.Proofs.VerbPhrases

/-!
What the statements of a block declare, one statement after another, and when a block is a term.
-/

namespace Glossary.Dictionary

open Text Fallible

variable {primitives : Primitives} {name body : String} {line : Nat} {d next last : Declared}
  {s : Statement} {r : Relationship} {b : Block} {t : Term} {ss ss' : List (Nat × String)}
  {e : ParseError} {fault : ParseFault}

/-- No statement says of itself that its target is a primitive type. -/
theorem Statement.verb_ne_primitiveType {text : List Char} (h : Statement.ofText? text = some s) :
    s.verb ≠ some (.relates .primitiveType) := by
  obtain ⟨entry, front, phrase, back, -, hentry, -, -, rfl⟩ := Statement.ofText?_eq_some_iff.mp h
  have hall : ∀ entry ∈ verbPhrases, entry.2 ≠ .relates .primitiveType := by decide
  dsimp only [verbOf]
  split
  · exact fun hverb => hall entry hentry (Option.some.inj hverb)
  · exact nofun

namespace Declared

theorem about?_eq_none_iff {target : Key} :
    d.about? target = none ↔ target ∉ d.relationships.map Relationship.targetKey := by
  simp [about?]

/-- What a statement about the term adds. Inheritance from a primitive type gives the term that
type. -/
inductive Takes (primitives : Primitives) (name : String) (d : Declared) (line : Nat)
    (s : Statement) : Declared → Prop
  | identifier (hverb : s.verb = some .identifiedBy) (hfirst : d.identifier = none)
      (hkey : Name.key (Name.display s.object) ≠ Name.key name) :
      d.Takes primitives name line s { d with identifier := some (Name.display s.object) }
  | typed (type : String) (hverb : s.verb = some (.relates .inherits))
      (htype : primitives.spelling? (Name.key (Name.display s.object)) = some type)
      (hfirst : d.type = none) (hfresh : Name.key type ∉ d.relationships.map Relationship.targetKey) :
      d.Takes primitives name line s { d with
        type := some type
        relationships := d.relationships ++ [⟨.primitiveType, name, type, some line⟩] }
  | related (relation : Relation) (hverb : s.verb = some (.relates relation))
      (hplain : relation = .inherits →
        primitives.spelling? (Name.key (Name.display s.object)) = none)
      (hfresh : Name.key (Name.display s.object) ∉ d.relationships.map Relationship.targetKey) :
      d.Takes primitives name line s { d with
        relationships := d.relationships ++ [⟨relation, name, Name.display s.object, some line⟩] }

theorem relate_eq_ok_iff : d.relate r = .ok next ↔
    r.targetKey ∉ d.relationships.map Relationship.targetKey ∧
      next = { d with relationships := d.relationships ++ [r] } := by
  unfold relate
  rw [← about?_eq_none_iff]
  cases d.about? r.targetKey with
  | some previous => simp
  | none => simp [eq_comm]

theorem relate_ne_unknownVerb : d.relate r ≠ .error .unknownVerb := by
  unfold relate
  split
  · split_ifs <;> simp
  · simp

/-- Takes in a statement about the term itself. -/
def take (primitives : Primitives) (name : String) (d : Declared) (line : Nat) (s : Statement) :
    Except ParseFault Declared :=
  match s.verb with
  | none => .error .unknownVerb
  | some .identifiedBy =>
      if d.identifier.isSome then .error .secondIdentifier
      else if Name.key (Name.display s.object) = Name.key name then .error .selfIdentifier
      else .ok { d with identifier := some (Name.display s.object) }
  | some (.relates relation) =>
      match relation, primitives.spelling? (Name.key (Name.display s.object)) with
      | .inherits, some type =>
          match d.type with
          | some first => .error (.secondType first type)
          | none =>
              Declared.relate { d with type := some type } ⟨.primitiveType, name, type, some line⟩
      | relation, _ => d.relate ⟨relation, name, Name.display s.object, some line⟩

theorem addStatement_eq (primitives : Primitives) (name : String) (d : Declared) (line : Nat)
    (body : String) : d.addStatement primitives name line body =
      match Statement.ofText? body.toList with
      | none => .error (.malformedStatement body)
      | some s =>
          if Name.key s.subject ≠ Name.key name then .error (.otherSubject s.subject)
          else d.take primitives name line s :=
  rfl

theorem take_eq_ok_iff :
    d.take primitives name line s = .ok next ↔ d.Takes primitives name line s next := by
  constructor
  · intro h
    unfold take at h
    split at h
    · cases h
    · rename_i hverb
      split_ifs at h with hidentifier hkey
      obtain rfl := Except.ok.inj h
      exact Takes.identifier hverb (by simpa using hidentifier) hkey
    · rename_i relation hverb
      split at h
      · rename_i type htype
        split at h
        · cases h
        · rename_i hnone
          obtain ⟨hfresh, rfl⟩ := relate_eq_ok_iff.mp h
          exact Takes.typed type hverb htype hnone hfresh
      · rename_i hplain
        obtain ⟨hfresh, rfl⟩ := relate_eq_ok_iff.mp h
        refine Takes.related _ hverb (fun hinherits => ?_) hfresh
        cases htype : primitives.spelling? (Name.key (Name.display s.object)) with
        | none => rfl
        | some type => exact (hplain type hinherits htype).elim
  · intro h
    cases h with
    | identifier hverb hfirst hkey => simp [take, hverb, hfirst, hkey]
    | typed type hverb htype hfirst hfresh =>
        simp only [take, hverb, htype, hfirst]
        exact relate_eq_ok_iff.mpr ⟨hfresh, rfl⟩
    | related relation hverb hplain hfresh =>
        have hrelate := relate_eq_ok_iff.mpr
          ⟨show Relationship.targetKey ⟨relation, name, Name.display s.object, some line⟩ ∉
            d.relationships.map Relationship.targetKey from hfresh, rfl⟩
        cases relation with
        | inherits =>
            simp only [take, hverb, hplain rfl]
            exact hrelate
        | composes =>
            simp only [take, hverb]
            exact hrelate
        | requires =>
            simp only [take, hverb]
            exact hrelate
        | primitiveType =>
            simp only [take, hverb]
            exact hrelate

theorem take_eq_unknownVerb_iff :
    d.take primitives name line s = .error .unknownVerb ↔ s.verb = none := by
  unfold take
  split
  · rename_i hverb
    simp [hverb]
  · rename_i hverb
    split_ifs <;> simp [hverb]
  · rename_i relation hverb
    split
    · split
      · simp [hverb]
      · simp [hverb, relate_ne_unknownVerb]
    · simp [hverb, relate_ne_unknownVerb]

theorem addStatement_eq_ok_iff : d.addStatement primitives name line body = .ok next ↔
    ∃ s, Statement.ofText? body.toList = some s ∧ Name.key s.subject = Name.key name ∧
      d.Takes primitives name line s next := by
  rw [addStatement_eq]
  cases Statement.ofText? body.toList with
  | none => simp
  | some s =>
      by_cases hkey : Name.key s.subject = Name.key name
      · simp [hkey, take_eq_ok_iff]
      · simp [hkey]

theorem addStatement_eq_unknownVerb_iff :
    d.addStatement primitives name line body = .error .unknownVerb ↔
      ∃ s, Statement.ofText? body.toList = some s ∧ Name.key s.subject = Name.key name ∧
        s.verb = none := by
  rw [addStatement_eq]
  cases Statement.ofText? body.toList with
  | none => simp
  | some s =>
      by_cases hkey : Name.key s.subject = Name.key name
      · simp [hkey, take_eq_unknownVerb_iff]
      · simp [hkey]

theorem addStatements_cons_eq_ok_iff :
    d.addStatements primitives name ((line, body) :: ss) = .ok last ↔
      ∃ next, d.addStatement primitives name line body = .ok next ∧
        next.addStatements primitives name ss = .ok last := by
  rw [addStatements]
  cases d.addStatement primitives name line body with
  | error fault => simp
  | ok next => simp

theorem addStatements_append_eq_ok_iff :
    d.addStatements primitives name (ss ++ ss') = .ok last ↔
      ∃ next, d.addStatements primitives name ss = .ok next ∧
        next.addStatements primitives name ss' = .ok last := by
  induction ss generalizing d with
  | nil => simp [addStatements]
  | cons s ss ih =>
      obtain ⟨line, body⟩ := s
      rw [List.cons_append, addStatements_cons_eq_ok_iff]
      simp only [addStatements_cons_eq_ok_iff, ih]
      constructor
      · rintro ⟨middle, hmiddle, next, hnext, hlast⟩
        exact ⟨next, ⟨middle, hmiddle, hnext⟩, hlast⟩
      · rintro ⟨next, ⟨middle, hmiddle, hnext⟩, hlast⟩
        exact ⟨middle, hmiddle, next, hnext, hlast⟩

/-- A block fails at its first statement that does. -/
theorem addStatements_eq_error_iff : d.addStatements primitives name ss = .error e ↔
    ∃ read line body rest reached fault, ss = read ++ (line, body) :: rest ∧
      d.addStatements primitives name read = .ok reached ∧
      reached.addStatement primitives name line body = .error fault ∧
      e = ⟨fault, some name, line⟩ := by
  induction ss generalizing d with
  | nil => simp [addStatements]
  | cons s ss ih =>
      obtain ⟨line, body⟩ := s
      rw [addStatements]
      constructor
      · intro h
        cases hnext : d.addStatement primitives name line body with
        | error fault =>
            rw [hnext] at h
            exact ⟨[], line, body, ss, d, fault, rfl, rfl, hnext, (Except.error.inj h).symm⟩
        | ok next =>
            rw [hnext] at h
            obtain ⟨read, line', body', rest, reached, fault, rfl, hread, hfault, rfl⟩ := ih.mp h
            exact ⟨(line, body) :: read, line', body', rest, reached, fault, rfl,
              addStatements_cons_eq_ok_iff.mpr ⟨next, hnext, hread⟩, hfault, rfl⟩
      · rintro ⟨read, line', body', rest, reached, fault, hsplit, hread, hfault, rfl⟩
        cases read with
        | nil =>
            obtain ⟨heq, rfl⟩ := List.cons.inj hsplit
            obtain ⟨rfl, rfl⟩ := Prod.mk.inj heq
            obtain rfl := Except.ok.inj hread
            rw [hfault]
        | cons s read =>
            rw [List.cons_append] at hsplit
            obtain ⟨rfl, rfl⟩ := List.cons.inj hsplit
            obtain ⟨next, hnext, hread⟩ := addStatements_cons_eq_ok_iff.mp hread
            rw [hnext]
            exact ih.mpr ⟨read, line', body', rest, reached, fault, rfl, hread, hfault, rfl⟩

end Declared

theorem Block.term_eq_ok_iff : b.term primitives = .ok t ↔
    primitives.contains (Name.key b.name) = false ∧ b.definition ≠ [] ∧
      ∃ d, Declared.nothing.addStatements primitives b.name b.statements = .ok d ∧
        (d.type.isSome = true → d.relationships.length ≤ 1 ∧ d.identifier = none) ∧
        t = ⟨b.name, " ".intercalate b.definition, d.type, d.identifier, d.relationships,
          some b.line⟩ := by
  unfold Block.term
  constructor
  · intro h
    split at h
    · cases h
    · rename_i hfresh
      split at h
      · cases h
      · rename_i hdefinition
        obtain ⟨d, hd, h⟩ := bind_eq_ok_iff.mp h
        refine ⟨by simpa using hfresh, by simpa using hdefinition, d, hd, ?_⟩
        split at h
        · rename_i type htype
          split at h
          · cases h
          · rename_i halone
            refine ⟨fun _ => ?_, (Except.ok.inj h).symm⟩
            simpa using halone
        · rename_i htype
          refine ⟨fun hsome => ?_, (Except.ok.inj h).symm⟩
          rw [htype] at hsome
          cases hsome
  · rintro ⟨hfresh, hdefinition, d, hd, halone, rfl⟩
    rw [if_neg (by simp [hfresh]), if_neg (by simpa using hdefinition), hd]
    cases htype : d.type with
    | none => simp [bind, Except.bind, htype, pure, Except.pure]
    | some type =>
        obtain ⟨hlength, hidentifier⟩ := halone (by simp [htype])
        simp [bind, Except.bind, htype, hidentifier, hlength, pure, Except.pure]

theorem Block.term_name (h : b.term primitives = .ok t) : t.name = b.name := by
  obtain ⟨-, -, d, -, -, rfl⟩ := Block.term_eq_ok_iff.mp h
  rfl

end Glossary.Dictionary
