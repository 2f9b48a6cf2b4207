import Glossary.Dictionary.Terms
import Glossary.Proofs.Locality

/-!
The order of the blocks of a dictionary, and the lines on which they stand, do not matter: the same
terms are declared, and they are linked alike.
-/

namespace Glossary

open Fallible

namespace Term

variable {terms terms' : List Term}

theorem included_of_perm (h : (terms.map unnumbered).Perm (terms'.map unnumbered)) :
    Included terms terms' := by
  intro t ht
  exact List.mem_map.mp (h.mem_iff.mp (List.mem_map_of_mem ht))

theorem keys_perm (h : (terms.map unnumbered).Perm (terms'.map unnumbered)) :
    (terms.map key).Perm (terms'.map key) := by
  have hkeys := h.map key
  rw [List.map_map, List.map_map] at hkeys
  exact hkeys

end Term

namespace Graph

variable {g : Graph} {primitives : Primitives} {terms terms' : List Term} {t t' : Term}

theorem AllowsTarget.mono (hincluded : Term.Included terms terms') {r r' : Relationship}
    (hsame : r'.unnumbered = r.unnumbered) (h : AllowsTarget primitives terms r) :
    AllowsTarget primitives terms' r' := by
  have hrelation : r'.relation = r.relation := by
    rw [← r'.unnumbered_relation, hsame, r.unnumbered_relation]
  have htarget : r'.targetKey = r.targetKey := by
    rw [← r'.unnumbered_targetKey, hsame, r.unnumbered_targetKey]
  have hdeclared : ∀ u ∈ terms, u.key = r.targetKey →
      ∃ u' ∈ terms', u'.key = r.targetKey ∧ u'.isScalar = u.isScalar := by
    intro u hu hkey
    obtain ⟨u', hu', hsame⟩ := hincluded u hu
    refine ⟨u', hu', ?_, ?_⟩
    · rw [← Term.unnumbered_key, hsame, Term.unnumbered_key, hkey]
    · rw [← Term.unnumbered_isScalar, hsame, Term.unnumbered_isScalar]
  have hany : (∃ u ∈ terms, u.key = r.targetKey) ∨ primitives.contains r.targetKey = true →
      (∃ u' ∈ terms', u'.key = r.targetKey) ∨ primitives.contains r.targetKey = true := by
    apply Or.imp_left
    rintro ⟨u, hu, hkey⟩
    obtain ⟨u', hu', hkey', -⟩ := hdeclared u hu hkey
    exact ⟨u', hu', hkey'⟩
  unfold AllowsTarget at h ⊢
  rw [hrelation, htarget]
  cases hcase : r.relation with
  | primitiveType =>
      rw [hcase] at h
      exact h
  | inherits =>
      rw [hcase] at h
      obtain ⟨u, hu, hkey, hscalar⟩ := h
      obtain ⟨u', hu', hkey', hscalar'⟩ := hdeclared u hu hkey
      exact ⟨u', hu', hkey', hscalar'.trans hscalar⟩
  | composes =>
      rw [hcase] at h
      exact hany h
  | requires =>
      rw [hcase] at h
      exact hany h

theorem IsValueKey.mono (hincluded : Term.Included terms terms') {key : Key}
    (h : IsValueKey primitives terms key) : IsValueKey primitives terms' key := by
  apply h.imp_left
  rintro ⟨u, hu, rfl, hscalar⟩
  obtain ⟨u', hu', hsame⟩ := hincluded u hu
  refine ⟨u', hu', ?_, ?_⟩
  · rw [← Term.unnumbered_key, hsame, Term.unnumbered_key]
  · rw [← Term.unnumbered_isScalar, hsame, Term.unnumbered_isScalar, hscalar]

theorem AcceptsTerm.mono (hincluded : Term.Included terms terms')
    (hsame : t'.unnumbered = t.unnumbered) (h : AcceptsTerm primitives terms t) :
    AcceptsTerm primitives terms' t' := by
  have hkey : t'.key = t.key := by rw [← t'.unnumbered_key, hsame, t.unnumbered_key]
  have htype : t'.type? = t.type? := by rw [← t'.unnumbered_type?, hsame, t.unnumbered_type?]
  have hidentifier : t'.identifier? = t.identifier? := by
    rw [← t'.unnumbered_identifier?, hsame, t.unnumbered_identifier?]
  have hrelationships : t'.relationships.map Relationship.unnumbered =
      t.relationships.map Relationship.unnumbered := congrArg Term.relationships hsame
  constructor
  case key_fresh => exact hkey ▸ h.key_fresh
  case type_known => exact htype ▸ h.type_known
  case targets_allowed =>
    intro r' hr'
    have hmem : r'.unnumbered ∈ t.relationships.map Relationship.unnumbered :=
      hrelationships ▸ List.mem_map_of_mem hr'
    obtain ⟨r, hr, hr'⟩ := List.mem_map.mp hmem
    exact (h.targets_allowed r hr).mono hincluded hr'.symm
  case identifier_value =>
    intro i hi
    exact (h.identifier_value i (hidentifier ▸ hi)).mono hincluded

theorem Accepts.of_perm (hperm : (terms.map Term.unnumbered).Perm (terms'.map Term.unnumbered))
    (h : Accepts primitives terms) : Accepts primitives terms' where
  nodup := (Term.keys_perm hperm).nodup_iff.mp h.nodup
  accepts_term := by
    intro t' ht'
    obtain ⟨t, ht, hsame⟩ := Term.included_of_perm hperm.symm t' ht'
    exact (h.accepts_term t ht).mono (Term.included_of_perm hperm) hsame.symm

/-- The same terms in another order are linked alike. -/
theorem exists_build_of_perm (hg : build primitives terms = .ok g)
    (hperm : (terms.map Term.unnumbered).Perm (terms'.map Term.unnumbered)) :
    ∃ g', build primitives terms' = .ok g' ∧
      ∀ key, g'.declares key = g.declares key ∧ g.RecordsAlike g' key := by
  obtain ⟨rfl, haccepts⟩ := build_eq_ok_iff.mp hg
  have hg' : build primitives terms' = .ok (ofTerms primitives terms') :=
    build_eq_ok_iff.mpr ⟨rfl, haccepts.of_perm hperm⟩
  refine ⟨ofTerms primitives terms', hg', fun key => ⟨?_, ?_⟩⟩
  · rw [Bool.eq_iff_iff, declares_ofTerms_iff, declares_ofTerms_iff]
    simpa only [List.mem_map] using (Term.keys_perm hperm).symm.mem_iff
  · exact recordsAlike_of_included hg hg' (Term.included_of_perm hperm) key

end Graph

namespace Dictionary

/-- A block with its place in the text forgotten. -/
def Block.unnumbered (b : Block) : Block :=
  { b with line := 0, statements := b.statements.map fun s => (0, s.2) }

/-- The texts have the same blocks, up to their order and to the lines on which they stand. -/
def SameBlocks (text text' : String) : Prop :=
  ∃ bs bs', blocks text.toList = .ok bs ∧ blocks text'.toList = .ok bs' ∧
    (bs.map Block.unnumbered).Perm (bs'.map Block.unnumbered)

/-- The term that a block declares, if it declares one, wherever the block stands. -/
def Block.declared? (primitives : Primitives) (b : Block) : Option Term :=
  (b.term primitives).toOption.map Term.unnumbered

def Declared.unnumbered (d : Declared) : Declared :=
  { d with relationships := d.relationships.map Relationship.unnumbered }

variable {primitives : Primitives} {name : String} {d d' : Declared} {b b' : Block}

namespace Declared

theorem unnumbered_eq_iff : d.unnumbered = d'.unnumbered ↔ d.type = d'.type ∧
    d.identifier = d'.identifier ∧ d.relationships.map Relationship.unnumbered =
      d'.relationships.map Relationship.unnumbered := by
  unfold unnumbered
  rw [mk.injEq]

theorem unnumbered_about? (d : Declared) (target : Key) :
    d.unnumbered.about? target = (d.about? target).map Relationship.unnumbered := by
  unfold about? unnumbered
  rw [List.find?_map]
  rfl

theorem relate_congr (h : d.unnumbered = d'.unnumbered) {r r' : Relationship}
    (hr : r.unnumbered = r'.unnumbered) :
    (d.relate r).toOption.map unnumbered = (d'.relate r').toOption.map unnumbered := by
  have htarget : r'.targetKey = r.targetKey := by
    rw [← r'.unnumbered_targetKey, ← hr, r.unnumbered_targetKey]
  have habout : (d.about? r.targetKey).map Relationship.unnumbered =
      (d'.about? r.targetKey).map Relationship.unnumbered := by
    rw [← unnumbered_about?, h, unnumbered_about?]
  unfold relate
  rw [htarget]
  cases hprevious : d.about? r.targetKey with
  | some previous =>
      rw [hprevious] at habout
      obtain ⟨previous', hprevious', -⟩ := Option.map_eq_some_iff.mp habout.symm
      rw [hprevious']
      rfl
  | none =>
      rw [hprevious] at habout
      rw [Option.map_eq_none_iff.mp habout.symm]
      obtain ⟨htype, hidentifier, hrelationships⟩ := unnumbered_eq_iff.mp h
      simp [Except.toOption, unnumbered, htype, hidentifier, hrelationships, hr]

theorem addStatement_congr (primitives : Primitives) (name : String)
    (h : d.unnumbered = d'.unnumbered) (line line' : Nat) (body : String) :
    (d.addStatement primitives name line body).toOption.map unnumbered =
      (d'.addStatement primitives name line' body).toOption.map unnumbered := by
  obtain ⟨htype, hidentifier, hrelationships⟩ := unnumbered_eq_iff.mp h
  have hrelate : ∀ relation target,
      (d.relate ⟨relation, name, target, some line⟩).toOption.map unnumbered =
        (d'.relate ⟨relation, name, target, some line'⟩).toOption.map unnumbered :=
    fun relation target => relate_congr h rfl
  unfold addStatement
  rw [← htype, ← hidentifier]
  cases Statement.ofText? body.toList with
  | none => rfl
  | some statement =>
      obtain ⟨subject, verb, object⟩ := statement
      dsimp only
      split
      · rfl
      · match verb with
        | none => rfl
        | some .identifiedBy =>
            split_ifs
            · rfl
            · rfl
            · simp [Except.toOption, unnumbered, htype, hrelationships]
        | some (.relates .inherits) =>
            cases primitives.spelling? (Name.key (Name.display object)) with
            | none => exact hrelate _ _
            | some type =>
                cases d.type with
                | some first => rfl
                | none => exact relate_congr (by simp [unnumbered, hidentifier, hrelationships]) rfl
        | some (.relates .composes) => exact hrelate _ _
        | some (.relates .requires) => exact hrelate _ _
        | some (.relates .primitiveType) => exact hrelate _ _

theorem addStatements_congr (h : d.unnumbered = d'.unnumbered) {ss ss' : List (Nat × String)}
    (hstatements : ss.map Prod.snd = ss'.map Prod.snd) :
    (d.addStatements primitives name ss).toOption.map unnumbered =
      (d'.addStatements primitives name ss').toOption.map unnumbered := by
  induction ss generalizing d d' ss' with
  | nil =>
      obtain rfl : ss' = [] := by simpa using hstatements.symm
      exact congrArg some h
  | cons s ss ih =>
      obtain ⟨line, body⟩ := s
      cases ss' with
      | nil => simp at hstatements
      | cons s' ss' =>
          obtain ⟨line', body'⟩ := s'
          obtain ⟨rfl, htail⟩ := List.cons.inj hstatements
          have hnext := addStatement_congr primitives name h line line' body
          rw [addStatements, addStatements]
          rcases error_or_ok_of_toOption_eq hnext with
            ⟨fault, fault', hd, hd'⟩ | ⟨next, next', hd, hd', hsame⟩
          · rw [hd, hd']
            rfl
          · rw [hd, hd']
            exact ih hsame htail

end Declared

theorem Block.declared?_congr (h : b.unnumbered = b'.unnumbered) :
    b.declared? primitives = b'.declared? primitives := by
  obtain ⟨name, line, definition, statements⟩ := b
  obtain ⟨name', line', definition', statements'⟩ := b'
  simp only [Block.unnumbered, Block.mk.injEq] at h
  obtain ⟨rfl, -, rfl, hstatements⟩ := h
  have hbodies : statements.map Prod.snd = statements'.map Prod.snd := by
    have hmap := congrArg (List.map Prod.snd) hstatements
    rw [List.map_map, List.map_map] at hmap
    exact hmap
  unfold Block.declared? Block.term
  dsimp only
  split
  · rfl
  · split
    · rfl
    · rcases error_or_ok_of_toOption_eq (Declared.addStatements_congr rfl hbodies) with
        ⟨error, error', hd, hd'⟩ | ⟨d, d', hd, hd', hsame⟩
      · rw [hd, hd']
        rfl
      · obtain ⟨htype, hidentifier, hrelationships⟩ := Declared.unnumbered_eq_iff.mp hsame
        have hlength : d.relationships.length = d'.relationships.length := by
          have hmap := congrArg List.length hrelationships
          rwa [List.length_map, List.length_map] at hmap
        rw [hd, hd']
        simp only [bind, Except.bind, htype, hidentifier, hlength]
        cases d'.type with
        | none =>
            simp [Term.unnumbered, hrelationships, Except.toOption, pure, Except.pure]
        | some type =>
            dsimp only
            split
            · rfl
            · simp [Term.unnumbered, hrelationships, Except.toOption, pure, Except.pure]

theorem Block.declared?_comp_unnumbered :
    Block.declared? primitives ∘ Block.unnumbered = Block.declared? primitives := by
  funext b
  apply declared?_congr
  simp [Block.unnumbered]

variable {bs : List Block} {before all ts : List Term} {text text' : String}

theorem map_declared? (h : bs.mapM (Block.term primitives) = .ok ts) :
    ts.map (some ∘ Term.unnumbered) = bs.map (Block.declared? primitives) := by
  apply map_eq_of_mapM_eq_ok h
  intro b t ht
  simp [Block.declared?, ht, Except.toOption]

theorem addTerm_eq_ok_iff : addTerm primitives before b = .ok all ↔
    ∃ t, b.term primitives = .ok t ∧ t.key ∉ before.map Term.key ∧ all = before ++ [t] := by
  unfold addTerm
  rw [bind_eq_ok_iff]
  apply exists_congr
  intro t
  apply and_congr_right
  intro _
  rw [← find?_key_eq_none_iff]
  cases before.find? fun first => first.key == t.key with
  | some first => simp [throw, throwThe, MonadExceptOf.throw]
  | none =>
      simp [pure, Except.pure, eq_comm]

theorem foldlM_addTerm_eq_ok_iff (hbefore : (before.map Term.key).Nodup) :
    bs.foldlM (addTerm primitives) before = .ok all ↔
      ∃ ts, bs.mapM (Block.term primitives) = .ok ts ∧ all = before ++ ts ∧
        (all.map Term.key).Nodup := by
  -- the terms so far have keys of their own, and a term that is taken in keeps it so
  induction bs generalizing before with
  | nil =>
      constructor
      · intro h
        obtain rfl := Except.ok.inj h
        exact ⟨[], rfl, (List.append_nil before).symm, hbefore⟩
      · rintro ⟨ts, hts, rfl, -⟩
        rw [List.mapM_nil] at hts
        obtain rfl := Except.ok.inj hts
        rw [List.append_nil]
        rfl
  | cons b bs ih =>
      have hnodup : ∀ {t : Term}, t.key ∉ before.map Term.key →
          ((before ++ [t]).map Term.key).Nodup := by
        intro t hfresh
        rw [List.map_append, List.map_singleton, ← List.concat_eq_append]
        exact hbefore.concat hfresh
      rw [foldlM_cons_eq_ok_iff]
      constructor
      · rintro ⟨next, hnext, h⟩
        obtain ⟨t, ht, hfresh, rfl⟩ := addTerm_eq_ok_iff.mp hnext
        obtain ⟨ts, hts, rfl, hall⟩ := (ih (hnodup hfresh)).mp h
        refine ⟨t :: ts, ?_, (List.append_cons before t ts).symm, hall⟩
        rw [List.mapM_cons, ht, hts]
        rfl
      · rintro ⟨all', hall', rfl, hall⟩
        rw [List.mapM_cons, bind_eq_ok_iff] at hall'
        obtain ⟨t, ht, hrest⟩ := hall'
        obtain ⟨ts, hts, heq⟩ := bind_eq_ok_iff.mp hrest
        obtain rfl := Except.ok.inj heq
        have hfresh : t.key ∉ before.map Term.key := by
          intro hmem
          rw [List.map_append, List.nodup_append] at hall
          exact hall.2.2 t.key hmem t.key (List.mem_map_of_mem List.mem_cons_self) rfl
        refine ⟨before ++ [t], addTerm_eq_ok_iff.mpr ⟨t, ht, hfresh, rfl⟩, ?_⟩
        exact (ih (hnodup hfresh)).mpr ⟨ts, hts, List.append_cons before t ts, hall⟩

theorem terms_eq_ok_iff : terms primitives text = .ok ts ↔
    ∃ bs, blocks text.toList = .ok bs ∧ bs.mapM (Block.term primitives) = .ok ts ∧
      (ts.map Term.key).Nodup := by
  have hnil : (([] : List Term).map Term.key).Nodup := List.nodup_nil
  unfold terms
  cases blocks text.toList with
  | error stray => simp
  | ok bs =>
      dsimp only
      rw [foldlM_addTerm_eq_ok_iff hnil]
      simp

/-- Blocks in another order declare the same terms. -/
theorem exists_terms_of_sameBlocks (hterms : terms primitives text = .ok ts)
    (hsame : SameBlocks text text') :
    ∃ ts', terms primitives text' = .ok ts' ∧
      (ts.map Term.unnumbered).Perm (ts'.map Term.unnumbered) := by
  obtain ⟨bs, hbs, hts, hnodup⟩ := terms_eq_ok_iff.mp hterms
  obtain ⟨bs₁, bs', hbs₁, hbs', hperm⟩ := hsame
  obtain rfl : bs = bs₁ := Except.ok.inj (hbs.symm.trans hbs₁)
  have hblocks : (bs.map (Block.declared? primitives)).Perm
      (bs'.map (Block.declared? primitives)) := by
    have hmap := hperm.map (Block.declared? primitives)
    rwa [List.map_map, List.map_map, Block.declared?_comp_unnumbered] at hmap
  obtain ⟨ts', hts'⟩ : ∃ ts', bs'.mapM (Block.term primitives) = .ok ts' := by
    -- every block has a counterpart in the other text, which declares a term
    apply exists_mapM_eq_ok
    intro b hb
    have hmem : b.declared? primitives ∈ bs.map (Block.declared? primitives) :=
      hblocks.mem_iff.mpr (List.mem_map_of_mem hb)
    rw [← map_declared? hts] at hmem
    obtain ⟨t, -, ht⟩ := List.mem_map.mp hmem
    obtain ⟨t', ht', -⟩ := Option.map_eq_some_iff.mp ht.symm
    exact ⟨t', eq_ok_of_toOption_eq_some ht'⟩
  have hterms' : (ts.map Term.unnumbered).Perm (ts'.map Term.unnumbered) := by
    rw [← map_declared? hts, ← map_declared? hts', ← List.map_map, ← List.map_map] at hblocks
    exact (List.map_perm_map_iff fun _ _ => Option.some.inj).mp hblocks
  refine ⟨ts', terms_eq_ok_iff.mpr ⟨bs', hbs', hts', ?_⟩, hterms'⟩
  exact (Term.keys_perm hterms').nodup_iff.mp hnodup

end Dictionary

end Glossary
