import Glossary.Proofs.ViewAttachments

/-!
Strict resolution goes the way of indulgent resolution and stops at the first ambiguity that it
meets. What it answers has none, and nothing else keeps it from an answer.
-/

namespace Glossary

open Fallible

def Issue.isAmbiguity (i : Issue) : Bool :=
  i.code == IssueCode.ambiguousIdentifier.text

def Unambiguous (issues : List Issue) : Prop :=
  ∀ i ∈ issues, i.code ≠ "AMBIGUOUS_IDENTIFIER"

/-- The anomaly tells of an ambiguous column of the schema with this label, and of the labels of the
term that keeps the column and of the one that loses it. -/
structure Issue.TellsOf (i : Issue) (label column kept dropped : String) : Prop where
  code_eq : i.code = "AMBIGUOUS_IDENTIFIER"
  location_eq : i.location = label ++ "." ++ column
  details_eq : i.details = [("kept", .str kept), ("dropped", .str dropped)]

def Schema.issues : Schema → List Issue
  | .table s => s.issues
  | .view s => s.issues

def Refuses {α : Type} (x : Except ResolutionError α) : Prop :=
  ∃ term column kept dropped, x = .error (.ambiguousIdentifier term column kept dropped)

/-- What strictness makes of a value that comes with anomalies: it refuses the first ambiguity among
them, and without one it keeps the value. -/
def StrictlyYields {α : Type} (label : String) (issues : List Issue) (value : α)
    (x : Except ResolutionError α) : Prop :=
  match issues.find? Issue.isAmbiguity with
  | none => x = .ok value
  | some i => ∃ column kept dropped, i.TellsOf label column kept dropped ∧
      x = .error (.ambiguousIdentifier label column kept dropped)

section Outcomes

variable {α β : Type} {label : String} {issues : List Issue} {value : α}
  {x : Except ResolutionError α}

theorem find?_isAmbiguity_eq_none_iff :
    issues.find? Issue.isAmbiguity = none ↔ Unambiguous issues := by
  simp [Unambiguous, Issue.isAmbiguity, IssueCode.text]

theorem StrictlyYields.eq_ok_or_refuses (h : StrictlyYields label issues value x) :
    x = .ok value ∨ Refuses x := by
  unfold StrictlyYields at h
  split at h
  · exact Or.inl h
  · obtain ⟨column, kept, dropped, -, rfl⟩ := h
    exact Or.inr ⟨label, column, kept, dropped, rfl⟩

theorem StrictlyYields.eq_ok_iff (h : StrictlyYields label issues value x) {a : α} :
    x = .ok a ↔ a = value ∧ Unambiguous issues := by
  unfold StrictlyYields at h
  rw [← find?_isAmbiguity_eq_none_iff]
  split at h
  · rename_i hnone
    simp [h, hnone, eq_comm]
  · rename_i hsome
    obtain ⟨column, kept, dropped, -, rfl⟩ := h
    simp [hsome]

theorem StrictlyYields.map (h : StrictlyYields label issues value x) (f : α → β) :
    StrictlyYields label issues (f value) (x.map f) := by
  unfold StrictlyYields at h ⊢
  split at h
  · rw [h]
    rfl
  · obtain ⟨column, kept, dropped, htells, rfl⟩ := h
    exact ⟨column, kept, dropped, htells, rfl⟩

end Outcomes

namespace Draft

variable {α : Type} {column : α → Column} {layer : Layer} {label : String} {d d' : Draft α}

theorem add_strict (column : α → Column) (layer : Layer) (label : String) (d : Draft α) (a : α) :
    ∃ d' new, d.add column ⟨layer, label, false⟩ a = .ok d' ∧ d'.issues = d.issues ++ new ∧
      StrictlyYields label new d' (d.add column ⟨layer, label, true⟩ a) := by
  unfold add
  cases d.columns.find? fun kept => (column kept).name == (column a).name with
  | none => exact ⟨_, [], rfl, by simp, rfl⟩
  | some first =>
      dsimp only
      by_cases hterm : (column first).term = (column a).term
      · rw [if_pos hterm, if_pos hterm]
        exact ⟨d, [], rfl, by simp, rfl⟩
      · rw [if_neg hterm, if_neg hterm]
        cases hambiguous : isAmbiguous (column first) (column a) with
        | true =>
            refine ⟨_, [_], rfl, rfl, ?_⟩
            simp only [StrictlyYields, List.find?_singleton, Issue.isAmbiguity, Occasion.conflict,
              hambiguous, if_true, beq_self_eq_true, Bool.and_self]
            exact ⟨_, _, _, ⟨by simp [IssueCode.text], rfl, rfl⟩, rfl⟩
        | false =>
            refine ⟨_, [_], rfl, rfl, ?_⟩
            simp [StrictlyYields, Issue.isAmbiguity, Occasion.conflict, hambiguous, IssueCode.text]

/-- Columns that are contributed strictly stop at the first ambiguity that they would leave. -/
theorem addAll_strict {as : List α} (h : d.addAll column ⟨layer, label, false⟩ as = .ok d') :
    ∃ new, d'.issues = d.issues ++ new ∧
      StrictlyYields label new d' (d.addAll column ⟨layer, label, true⟩ as) := by
  induction as generalizing d with
  | nil =>
      obtain rfl := Except.ok.inj h
      exact ⟨[], by simp, rfl⟩
  | cons a as ih =>
      obtain ⟨next, hnext, hrest⟩ := foldlM_cons_eq_ok_iff.mp h
      obtain ⟨next', first, hnext', hfirst, hadd⟩ := add_strict column layer label d a
      obtain rfl := Except.ok.inj (hnext.symm.trans hnext')
      obtain ⟨rest, hissues, hyields⟩ := ih hrest
      refine ⟨first ++ rest, by rw [hissues, hfirst, List.append_assoc], ?_⟩
      unfold StrictlyYields at hadd hyields ⊢
      rw [addAll, List.foldlM_cons, List.find?_append]
      cases hfound : first.find? Issue.isAmbiguity with
      | none =>
          -- no ambiguity so far, so the strict draft is the same and goes on the same way
          rw [hfound] at hadd
          rw [hadd, Option.none_or]
          exact hyields
      | some i =>
          rw [hfound] at hadd
          obtain ⟨name, kept, dropped, htells, herror⟩ := hadd
          rw [herror, Option.some_or]
          exact ⟨name, kept, dropped, htells, rfl⟩

end Draft

/-- The strict computation does what the indulgent one does, or it refuses. -/
def Simulation.strictness : Simulation (Except ResolutionError) where
  Does x y := x = y ∨ Refuses x
  does_pure _ := Or.inl rfl
  does_lift _ := Or.inl rfl
  does_bind := by
    rintro α β x y f f' (rfl | ⟨term, column, kept, dropped, rfl⟩) hf
    · cases x with
      | ok a => exact hf a rfl
      | error e => exact Or.inl rfl
    · exact Or.inr ⟨term, column, kept, dropped, rfl⟩

namespace Graph

variable {g : Graph} {type : String} {key : Key}

theorem table_strict {t : TableSchema} (h : g.table ⟨type, false⟩ key = .ok t) :
    StrictlyYields (g.label key) t.issues t (g.table ⟨type, true⟩ key) := by
  obtain ⟨⟨⟩, hacyclic, h⟩ := bind_eq_ok_iff.mp h
  obtain ⟨d, hd, h⟩ := bind_eq_ok_iff.mp h
  obtain rfl := Except.ok.inj h
  obtain ⟨new, hissues, hyields⟩ := Draft.addAll_strict hd
  obtain rfl : d.issues = new := hissues
  have hstrict : g.table ⟨type, true⟩ key =
      (Draft.empty.addAll id ⟨.physical, g.label key, true⟩ (g.contributions ⟨type, true⟩ key)).map
        fun d => ⟨key, g.label key, Name.table (g.label key), g.isScalar key, d.columns,
          d.issues⟩ := by
    unfold table
    rw [hacyclic]
    rfl
  rw [hstrict]
  exact hyields.map _

theorem table_does (g : Graph) (type : String) (key : Key) :
    Simulation.strictness.Does (g.table ⟨type, true⟩ key) (g.table ⟨type, false⟩ key) := by
  cases h : g.table ⟨type, false⟩ key with
  | ok t => exact (table_strict h).eq_ok_or_refuses
  | error e =>
      -- without strictness only the search for cycles fails, and it is the same search
      obtain ⟨hcycle, -⟩ := table_eq_error rfl h
      rcases bind_eq_error_iff.mp h with hacyclic | ⟨⟨⟩, hacyclic, -⟩
      · exact Or.inl (bind_eq_error_iff.mpr (Or.inl hacyclic))
      · exact absurd hcycle (requireAcyclic_eq_ok_iff.mp hacyclic)

theorem optionsAlike_strict (type : String) :
    OptionsAlike Simulation.strictness ⟨type, true⟩ ⟨type, false⟩ where
  identifierType_eq := rfl
  addColumns_does := by
    intro label v columns
    obtain ⟨d, hd⟩ := Draft.exists_addAll_eq_ok ViewColumn.toColumn
      (o := ⟨.logical, label, false⟩) rfl v.toDraft columns
    obtain ⟨new, -, hyields⟩ := Draft.addAll_strict hd
    have hmapped := (hyields.map fun d => ({ v with toDraft := d } : ViewDraft)).eq_ok_or_refuses
    show _ ∨ _
    unfold ViewDraft.addColumns
    rw [hd]
    exact hmapped

theorem view_does (g : Graph) (type : String) (key : Key) :
    Simulation.strictness.Does (g.view ⟨type, true⟩ key) (g.view ⟨type, false⟩ key) := by
  apply viewWithin_does Simulation.strictness (AgreesOn.refl g) (optionsAlike_strict type)
  · exact fun k _ => table_does g type k
  · exact fun _ _ hview => hview
  · exact Set.mem_univ key
  · exact StandBelow.nil
  · exact Nat.lt_succ_self g.size

theorem schema_does (g : Graph) (type : String) (layer : Layer) (key : Key) :
    Simulation.strictness.Does (g.schema ⟨type, true⟩ layer key)
      (g.schema ⟨type, false⟩ layer key) := by
  cases layer with
  | physical =>
      rcases table_does g type key with h | ⟨term, column, kept, dropped, h⟩
      · exact Or.inl (congrArg (Except.map Schema.table) h)
      · exact Or.inr ⟨term, column, kept, dropped, congrArg (Except.map Schema.table) h⟩
  | logical =>
      rcases view_does g type key with h | ⟨term, column, kept, dropped, h⟩
      · exact Or.inl (congrArg (Except.map Schema.view) h)
      · exact Or.inr ⟨term, column, kept, dropped, congrArg (Except.map Schema.view) h⟩

/-- What holds of refusals and of all errors without strictness holds of every error. -/
theorem error_of_lenient {α : Type} {P : ResolutionError → Prop}
    (resolve : ResolutionOptions → Except ResolutionError α)
    (hstrict : ∀ type, Simulation.strictness.Does (resolve ⟨type, true⟩) (resolve ⟨type, false⟩))
    (hrefusal : ∀ term column kept dropped, P (.ambiguousIdentifier term column kept dropped))
    (hlenient : ∀ type e, resolve ⟨type, false⟩ = .error e → P e)
    {o : ResolutionOptions} {e : ResolutionError} (h : resolve o = .error e) : P e := by
  obtain ⟨type, strict⟩ := o
  cases strict with
  | false => exact hlenient type e h
  | true =>
      rcases hstrict type with heq | ⟨term, column, kept, dropped, hrefused⟩
      · exact hlenient type e (heq.symm.trans h)
      · obtain rfl := Except.error.inj (hrefused.symm.trans h)
        exact hrefusal term column kept dropped

theorem table_unambiguous {t : TableSchema} (h : g.table ⟨type, true⟩ key = .ok t) :
    Unambiguous t.issues := by
  rcases table_does g type key with heq | ⟨term, column, kept, dropped, herror⟩
  · exact ((table_strict (heq ▸ h)).eq_ok_iff.mp h).2
  · cases h.symm.trans herror

theorem Assembles.unambiguous {table : TableSchema} {exposed parents : List Attachment}
    {v : ViewSchema} (h : g.Assembles ⟨type, true⟩ key table exposed parents v) :
    Unambiguous v.issues := by
  obtain ⟨d, hd⟩ := Draft.exists_addAll_eq_ok ViewColumn.toColumn
    (o := ⟨.logical, table.label, false⟩) rfl ⟨[], table.issues⟩
    (viewContributions table (exposed ++ parents))
  obtain ⟨new, hissues, hyields⟩ := Draft.addAll_strict hd
  obtain ⟨rfl, hnew⟩ := hyields.eq_ok_iff.mp h.columns_of
  intro i hi
  rw [show v.issues = table.issues ++ new from hissues] at hi
  rcases List.mem_append.mp hi with hi | hi
  · exact table_unambiguous h.table_eq_ok i hi
  · exact hnew i hi

/-- Strictness only takes answers away: what it answers is what is answered without it, and has no
ambiguity, and where nothing is answered without it, it fails in the same way or refuses. A table
is refused for its first ambiguity. -/
theorem strictness_onlyRefuses (g : Graph) (type : String) (layer : Layer) (key : Key) :
    (∀ s, g.schema ⟨type, true⟩ layer key = .ok s → g.schema ⟨type, false⟩ layer key = .ok s ∧
      Unambiguous s.issues) ∧
    (∀ e, g.schema ⟨type, false⟩ layer key = .error e →
      g.schema ⟨type, true⟩ layer key = .error e ∨ Refuses (g.schema ⟨type, true⟩ layer key)) ∧
    ∀ t, g.table ⟨type, false⟩ key = .ok t →
      StrictlyYields (g.label key) t.issues t (g.table ⟨type, true⟩ key) := by
  refine ⟨?_, ?_, fun t ht => table_strict ht⟩
  · intro s hs
    have hsame : g.schema ⟨type, false⟩ layer key = .ok s := by
      rcases schema_does g type layer key with heq | ⟨term, column, kept, dropped, herror⟩
      · rw [← heq, hs]
      · cases hs.symm.trans herror
    refine ⟨hsame, ?_⟩
    cases layer with
    | physical =>
        obtain ⟨t, ht, rfl⟩ := exists_of_map_eq_ok hs
        exact table_unambiguous ht
    | logical =>
        obtain ⟨v, hv, rfl⟩ := exists_of_map_eq_ok hs
        obtain ⟨table, exposed, parents, hassembles⟩ := exists_assembles hv
        exact hassembles.unambiguous
  · intro e he
    rcases schema_does g type layer key with heq | hrefuses
    · exact Or.inl (heq.trans he)
    · exact Or.inr hrefuses

/-- The items and the articles of a bundle are known by columns of one name. -/
def bundleTerms : List Term := [
  ⟨"Item", "A thing.", none, none, [], none⟩,
  ⟨"Article", "An old thing.", none, some "Item Id", [], none⟩,
  ⟨"Item Id", "A number.", none, none,
    [⟨.primitiveType, "Item Id", "Integer", none⟩], none⟩,
  ⟨"Bundle", "Things.", none, none,
    [⟨.composes, "Bundle", "Item", none⟩, ⟨.composes, "Bundle", "Article", none⟩], none⟩,
  ⟨"Order", "An order.", none, none, [⟨.composes, "Order", "Bundle", none⟩], none⟩]

def bundle : Graph :=
  ofTerms (Primitives.ofNames builtInPrimitives) bundleTerms

theorem bundle_isStrict :
    (∃ t, bundle.table ⟨"String", false⟩ "bundle" = .ok t ∧
      StrictlyYields "Bundle" t.issues t (bundle.table ⟨"String", true⟩ "bundle") ∧
      ¬Unambiguous t.issues) ∧
    ∃ s, bundle.schema ⟨"String", true⟩ .logical "item" = .ok s ∧
      bundle.schema ⟨"String", false⟩ .logical "item" = .ok s ∧
      Unambiguous s.issues := by
  have htable : (bundle.table ⟨"String", false⟩ "bundle").toOption.any
      (fun t => t.issues.any Issue.isAmbiguity) = true := by
    decide +kernel
  have hitem : (bundle.schema ⟨"String", true⟩ .logical "item").toOption.isSome = true := by
    decide +kernel
  obtain ⟨t, ht, hissues⟩ := (Option.any_eq_true _ _).mp htable
  obtain ⟨s, hs⟩ := Option.isSome_iff_exists.mp hitem
  have ht' := eq_ok_of_toOption_eq_some ht
  have hs' := eq_ok_of_toOption_eq_some hs
  refine ⟨⟨t, ht', ?_, ?_⟩, s, hs', ?_⟩
  · exact (strictness_onlyRefuses bundle "String" .physical "bundle").2.2 t ht'
  · rw [← find?_isAmbiguity_eq_none_iff, List.find?_eq_none]
    simpa using hissues
  · exact (strictness_onlyRefuses bundle "String" .logical "item").1 s hs'

end Graph

end Glossary
