import Mathlib.Data.Set.Basic
import Glossary.Proofs.Ancestors
import Glossary.Proofs.Table

/-!
Two graphs that say the same about a term, and about everything that it leads to, give it the same
ancestors and the same table. How many other terms there are bounds the walks, but is not seen in
what they find.
-/

namespace Glossary

open Fallible

/-- What resolution reads of a statement. -/
def Link.arrow (l : Link) : Relation × Key :=
  (l.relation, l.target)

theorem map_eq_map_of_map_eq {α α' β γ : Type} {e : α → γ} {e' : α' → γ} {f : α → β} {f' : α' → β}
    {as : List α} {bs : List α'} (h : as.map e = bs.map e')
    (hf : ∀ a ∈ as, ∀ b ∈ bs, e a = e' b → f a = f' b) : as.map f = bs.map f' := by
  induction as generalizing bs with
  | nil =>
      obtain rfl : bs = [] := by simpa using h.symm
      rfl
  | cons a as ih =>
      cases bs with
      | nil => simp at h
      | cons b bs =>
          obtain ⟨hhead, htail⟩ := List.cons.inj h
          rw [List.map_cons, List.map_cons, hf a List.mem_cons_self b List.mem_cons_self hhead,
            ih htail]
          intro a' ha' b' hb'
          exact hf a' (List.mem_cons_of_mem a ha') b' (List.mem_cons_of_mem b hb')

namespace Graph

/-- Both graphs say the same about the keys of a set, and these refer to keys of the set alone. -/
structure AgreesOn (g g' : Graph) (s : Set Key) : Prop where
  links_eq : ∀ k ∈ s, (g.links k).map Link.arrow = (g'.links k).map Link.arrow
  label_eq : ∀ k ∈ s, g.label k = g'.label k
  primitiveType?_eq : ∀ k ∈ s, g.primitiveType? k = g'.primitiveType? k
  identifier?_eq : ∀ k ∈ s, g.declaredIdentifier? k = g'.declaredIdentifier? k
  isEntity_eq : ∀ k ∈ s, g.isEntity k = g'.isEntity k
  target_mem : ∀ k ∈ s, ∀ l ∈ g.links k, l.target ∈ s
  identifier_mem : ∀ k ∈ s, ∀ i, g.declaredIdentifier? k = some i → i ∈ s

theorem AgreesOn.refl (g : Graph) : g.AgreesOn g Set.univ := by
  constructor <;> simp

theorem Frontier.unseen_eq_nil {g : Graph} {key : Key} {n : Nat} {seen level : List Key}
    (h : g.Frontier key n seen level) (hn : g.size < n) : unseen seen level = [] := by
  apply List.eq_nil_iff_forall_not_mem.mpr
  intro a ha
  have hle := (h.mem_unseen_iff_isAtDistance.mp ha).le_size
  omega

namespace AgreesOn

variable {g g' : Graph} {s : Set Key} {key root : Key}

theorem filter_links_eq (h : g.AgreesOn g' s) (hkey : key ∈ s) (p : Relation → Bool) :
    (((g.links key).filter fun l => p l.relation).map Link.arrow) =
      ((g'.links key).filter fun l => p l.relation).map Link.arrow := by
  have hfilter : ∀ links : List Link, (links.filter fun l => p l.relation).map Link.arrow =
      (links.map Link.arrow).filter fun arrow => p arrow.1 := by
    intro links
    rw [List.filter_map]
    rfl
  rw [hfilter, hfilter, h.links_eq key hkey]

theorem parents_eq (h : g.AgreesOn g' s) (hkey : key ∈ s) : g.parents key = g'.parents key := by
  have hlinks := congrArg (List.map Prod.snd)
    (h.filter_links_eq hkey fun relation => relation == .inherits)
  rw [List.map_map, List.map_map] at hlinks
  exact hlinks

theorem references_eq (h : g.AgreesOn g' s) (hkey : key ∈ s) :
    (g.references key).map Link.arrow = (g'.references key).map Link.arrow :=
  h.filter_links_eq hkey fun relation => relation == .composes || relation == .requires

theorem requirements_eq (h : g.AgreesOn g' s) (hkey : key ∈ s) :
    (g.requirements key).map Link.arrow = (g'.requirements key).map Link.arrow := by
  unfold requirements references
  simp only [List.filter_filter]
  exact h.filter_links_eq hkey fun relation =>
    relation == .requires && (relation == .composes || relation == .requires)

theorem filter_isEntity_eq (h : g.AgreesOn g' s) {links links' : List Link}
    (hlinks : links.map Link.arrow = links'.map Link.arrow) (hmem : ∀ l ∈ links, l.target ∈ s) :
    ((links.filter fun l => g.isEntity l.target).map Link.arrow) =
      ((links'.filter fun l => g'.isEntity l.target).map Link.arrow) := by
  have hfilter : ∀ (graph : Graph) (ls : List Link),
      (ls.filter fun l => graph.isEntity l.target).map Link.arrow =
        (ls.map Link.arrow).filter fun arrow => graph.isEntity arrow.2 := by
    intro graph ls
    rw [List.filter_map]
    rfl
  rw [hfilter, hfilter, ← hlinks]
  apply List.filter_congr
  intro arrow harrow
  obtain ⟨l, hl, rfl⟩ := List.mem_map.mp harrow
  exact h.isEntity_eq l.target (hmem l hl)

theorem reference_mem (h : g.AgreesOn g' s) (hkey : key ∈ s) {l : Link}
    (hl : l ∈ g.references key) : l.target ∈ s :=
  h.target_mem key hkey l (List.mem_of_mem_filter hl)

theorem parent_mem (h : g.AgreesOn g' s) (hkey : key ∈ s) {parent : Key}
    (hparent : parent ∈ g.parents key) : parent ∈ s := by
  obtain ⟨l, hl, rfl⟩ := List.mem_map.mp hparent
  exact h.target_mem key hkey l (List.mem_of_mem_filter hl)

theorem mem_of_reflTransGen (h : g.AgreesOn g' s) (hkey : key ∈ s) {a : Key}
    (hreach : Relation.ReflTransGen g.Inherits key a) : a ∈ s := by
  induction hreach with
  | refl => exact hkey
  | tail _ hparent ih => exact h.parent_mem ih hparent

theorem ancestor_mem (h : g.AgreesOn g' s) (hkey : key ∈ s) {a : Key}
    (ha : a ∈ g.ancestors key) : a ∈ s :=
  h.mem_of_reflTransGen hkey (mem_ancestors_iff.mp ha).2.to_reflTransGen

theorem labels_eq (h : g.AgreesOn g' s) {keys : List Key} (hkeys : ∀ k ∈ keys, k ∈ s) :
    g.labels keys = g'.labels keys :=
  List.map_congr_left fun k hk => h.label_eq k (hkeys k hk)

theorem labels_cycleAt_eq (h : g.AgreesOn g' s) (hkey : key ∈ s) {path : List Key}
    (hpath : ∀ k ∈ path, k ∈ s) : g.labels (cycleAt path key) = g'.labels (cycleAt path key) := by
  apply h.labels_eq
  intro k hk
  rcases List.mem_append.mp hk with hk | hk
  · exact hpath k ((List.dropWhile_sublist _).subset hk)
  · rw [List.mem_singleton.mp hk]
    exact hkey

/-- Walks that both have room for all terms of their graphs go the same way. -/
theorem walkParents_eq (h : g.AgreesOn g' s) (hroot : root ∈ s) {steps steps' : Nat}
    {path done : List Key} (hkey : key ∈ s) (hpath : ∀ k ∈ path, k ∈ s)
    (hbelow : g.StandBelow path key) (hbelow' : g'.StandBelow path key)
    (hsteps : g.size < steps + path.length) (hsteps' : g'.size < steps' + path.length) :
    g.walkParents root steps path done key = g'.walkParents root steps' path done key := by
  induction steps generalizing steps' path done key with
  | zero =>
      have hle := hbelow.length_le_size
      omega
  | succ steps ih =>
      cases steps' with
      | zero =>
          have hle := hbelow'.length_le_size
          omega
      | succ steps' =>
          rw [walkParents, walkParents, ← h.parents_eq hkey, h.label_eq root hroot,
            h.labels_cycleAt_eq hkey hpath]
          by_cases hcycle : key ∈ path
          · rw [if_pos hcycle, if_pos hcycle]
          · rw [if_neg hcycle, if_neg hcycle]
            congr 2
            apply foldlM_congr
            intro parent hparent done
            have hparent' : g'.Inherits key parent := by
              rw [Inherits, ← h.parents_eq hkey]
              exact hparent
            apply ih (h.parent_mem hkey hparent)
            · exact List.forall_mem_append.mpr ⟨hpath, List.forall_mem_singleton.mpr hkey⟩
            · exact hbelow.append hcycle hparent
            · exact hbelow'.append hcycle hparent'
            · rw [List.length_append, List.length_singleton]
              omega
            · rw [List.length_append, List.length_singleton]
              omega

theorem requireAcyclic_eq (h : g.AgreesOn g' s) (hkey : key ∈ s) :
    g.requireAcyclic key = g'.requireAcyclic key := by
  have hwalk : g.walkParents key g.stepBound [] [] key =
      g'.walkParents key g'.stepBound [] [] key := by
    apply h.walkParents_eq hkey hkey
    · simp
    · exact StandBelow.nil
    · exact StandBelow.nil
    · simp [stepBound]
    · simp [stepBound]
  unfold requireAcyclic
  rw [hwalk]

theorem ancestorLevels_eq (h : g.AgreesOn g' s) {n steps steps' : Nat} {seen level : List Key}
    (hlevel : ∀ a ∈ level, a ∈ s) (hfrontier : g.Frontier key n seen level)
    (hfrontier' : g'.Frontier key n seen level) (hsteps : g.size < steps + n)
    (hsteps' : g'.size < steps' + n) :
    g.ancestorLevels steps seen level = g'.ancestorLevels steps' seen level := by
  induction steps generalizing n steps' seen level with
  | zero =>
      have hnil := hfrontier.unseen_eq_nil (by omega)
      cases steps' with
      | zero => rfl
      | succ steps' => rw [ancestorLevels_succ, if_pos hnil, ancestorLevels]
  | succ steps ih =>
      cases steps' with
      | zero =>
          have hnil := hfrontier'.unseen_eq_nil (by omega)
          rw [ancestorLevels_succ, if_pos hnil, ancestorLevels]
      | succ steps' =>
          have hunseen : ∀ a ∈ unseen seen level, a ∈ s := by
            intro a ha
            exact hlevel a (mem_unseen_iff.mp ha).1
          have hnext : (unseen seen level).flatMap g.parents =
              (unseen seen level).flatMap g'.parents :=
            List.flatMap_congr fun a ha => h.parents_eq (hunseen a ha)
          rw [ancestorLevels_succ, ancestorLevels_succ, ← hnext]
          congr 2
          apply ih
          · intro b hb
            obtain ⟨a, ha, hparent⟩ := List.mem_flatMap.mp hb
            exact h.parent_mem (hunseen a ha) hparent
          · exact hfrontier.next
          · rw [hnext]
            exact hfrontier'.next
          · omega
          · omega

theorem ancestors_eq (h : g.AgreesOn g' s) (hkey : key ∈ s) :
    g.ancestors key = g'.ancestors key := by
  have hlevels : g.ancestorLevels g.stepBound [key] (g.parents key) =
      g'.ancestorLevels g'.stepBound [key] (g.parents key) := by
    apply h.ancestorLevels_eq fun a ha => h.parent_mem hkey ha
    · exact frontier_one g key
    · rw [h.parents_eq hkey]
      exact frontier_one g' key
    · unfold stepBound
      omega
    · unfold stepBound
      omega
  rw [ancestors, hlevels, h.parents_eq hkey, ancestors]

section Columns

variable (o : ResolutionOptions)

theorem identifierSource_eq (h : g.AgreesOn g' s) (hkey : key ∈ s) :
    g.identifierSource o key = g'.identifierSource o key := by
  unfold identifierSource
  rw [h.primitiveType?_eq key hkey, h.label_eq key hkey, h.identifier?_eq key hkey]
  split
  · rfl
  · split
    · rename_i declared hdeclared
      have hmem : declared ∈ s := by
        rw [← h.identifier?_eq key hkey, Option.filter_eq_some_iff] at hdeclared
        exact h.identifier_mem key hkey declared hdeclared.1
      rw [h.label_eq declared hmem, h.primitiveType?_eq declared hmem]
    · rfl

theorem identifierColumn_eq (h : g.AgreesOn g' s) (hkey : key ∈ s) :
    g.identifierColumn o key = g'.identifierColumn o key := by
  unfold identifierColumn
  rw [h.identifierSource_eq o hkey, h.label_eq key hkey]

theorem isScalar_eq (h : g.AgreesOn g' s) (hkey : key ∈ s) : g.isScalar key = g'.isScalar key := by
  unfold isScalar
  rw [h.primitiveType?_eq key hkey]

theorem referenceColumn_eq (h : g.AgreesOn g' s) {l l' : Link} (hl : l.target ∈ s)
    (harrow : l.arrow = l'.arrow) : g.referenceColumn o l = g'.referenceColumn o l' := by
  obtain ⟨hrelation, htarget⟩ := Prod.mk.inj harrow
  unfold referenceColumn
  rw [← htarget, ← hrelation, h.identifierColumn_eq o hl, h.isScalar_eq hl]

theorem contributions_eq (h : g.AgreesOn g' s) (hkey : key ∈ s) :
    g.contributions o key = g'.contributions o key := by
  have hinherited : (g.ancestors key).map (g.inheritedColumn o) =
      (g.ancestors key).map (g'.inheritedColumn o) := by
    apply List.map_congr_left
    intro a ha
    unfold inheritedColumn
    rw [h.identifierColumn_eq o (h.ancestor_mem hkey ha)]
  have hreferences : (g.references key).map (g.referenceColumn o) =
      (g'.references key).map (g'.referenceColumn o) := by
    apply map_eq_map_of_map_eq (h.references_eq hkey)
    intro l hl l' _ harrow
    exact h.referenceColumn_eq o (h.reference_mem hkey hl) harrow
  unfold contributions
  rw [h.identifierColumn_eq o hkey, hinherited, hreferences, h.ancestors_eq hkey]

theorem table_eq (h : g.AgreesOn g' s) (hkey : key ∈ s) : g.table o key = g'.table o key := by
  unfold table
  rw [h.requireAcyclic_eq hkey, h.label_eq key hkey, h.contributions_eq o hkey, h.isScalar_eq hkey]

end Columns

end AgreesOn

end Graph

end Glossary
