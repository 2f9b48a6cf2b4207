import Glossary.CommandLine.FileTree
import Glossary.Proofs.Fallible

/-!
What writing does to a tree of files. A file that has been written is found at its path until
another is written at the same place, and no path that led to a place before leads elsewhere then.
-/

namespace Glossary.CommandLine

open Fallible

namespace FileTree

variable {t t' u : FileTree} {p q : Path} {place here : List String} {bytes : List Nat}

/-- Directories have been made, and nothing else has changed. -/
structure Extends (t t' : FileTree) : Prop where
  files_eq : t'.files = t.files
  home_eq : t'.home = t.home
  directories_kept : t.directories ⊆ t'.directories

theorem Extends.refl (t : FileTree) : t.Extends t :=
  ⟨rfl, rfl, List.Subset.refl _⟩

theorem Extends.trans (h : t.Extends t') (h' : t'.Extends u) : t.Extends u where
  files_eq := h'.files_eq.trans h.files_eq
  home_eq := h'.home_eq.trans h.home_eq
  directories_kept := List.Subset.trans h.directories_kept h'.directories_kept

theorem makeDirectory_extends (h : t.makeDirectory p = .ok t') : t.Extends t' := by
  obtain ⟨place, -, h⟩ := bind_eq_ok_iff.mp h
  split at h
  · cases h
  · obtain rfl := Except.ok.inj h
    exact ⟨rfl, rfl, List.subset_append_left _ _⟩

theorem requireDirectory_extends (h : t.requireDirectory p = .ok t') : t.Extends t' := by
  unfold requireDirectory at h
  split at h
  · rename_i hmade
    obtain rfl := Except.ok.inj h
    exact makeDirectory_extends hmade
  · split at h
    · obtain rfl := Except.ok.inj h
      exact Extends.refl t
    · cases h

theorem requireDirectories_extends {root : String} {steps : List String}
    (h : t.requireDirectories root steps = .ok t') : t.Extends t' := by
  induction steps generalizing t' with
  | nil =>
      obtain rfl := Except.ok.inj h
      exact Extends.refl t
  | cons step above ih =>
      rw [requireDirectories] at h
      split at h
      · obtain ⟨middle, hmiddle, h⟩ := bind_eq_ok_iff.mp h
        exact (ih hmiddle).trans (requireDirectory_extends h)
      · exact requireDirectory_extends h

/-- Where paths led through directories they still do. -/
structure KeepsWays (t t' : FileTree) : Prop where
  home_eq : t'.home = t.home
  directory_kept : ∀ here, t.file? here = none → t.isDirectory here = true →
    t'.file? here = none ∧ t'.isDirectory here = true

theorem KeepsWays.trans (h : t.KeepsWays t') (h' : t'.KeepsWays u) : t.KeepsWays u where
  home_eq := h'.home_eq.trans h.home_eq
  directory_kept here hfile hdirectory := by
    obtain ⟨hfile', hdirectory'⟩ := h.directory_kept here hfile hdirectory
    exact h'.directory_kept here hfile' hdirectory'

theorem Extends.keepsWays (h : t.Extends t') : t.KeepsWays t' where
  home_eq := h.home_eq
  directory_kept here hfile hdirectory := by
    unfold file? isDirectory at *
    rw [h.files_eq]
    refine ⟨hfile, ?_⟩
    simp only [Bool.or_eq_true] at hdirectory ⊢
    refine hdirectory.imp_left (Or.imp_right fun hany => ?_)
    rw [List.any_eq_true] at hany ⊢
    obtain ⟨directory, hmem, hprefix⟩ := hany
    exact ⟨directory, h.directories_kept hmem, hprefix⟩

theorem lookup_map_update (files : List (List String × List Nat)) (place q : List String)
    (bytes : List Nat) :
    (files.map fun f => if f.1 == place then (place, bytes) else f).lookup q =
      if q = place then (files.lookup q).map fun _ => bytes else files.lookup q := by
  induction files with
  | nil => simp
  | cons f files ih =>
      obtain ⟨here, old⟩ := f
      rw [List.map_cons, List.lookup_cons, List.lookup_cons, ih]
      by_cases hhere : here = place
      · subst hhere
        by_cases hq : q = here
        · simp [hq]
        · simp [hq, beq_eq_false_iff_ne.mpr hq]
      · by_cases hq : q = here
        · subst hq
          simp [hhere]
        · simp [hhere, beq_eq_false_iff_ne.mpr hq]

theorem file?_put (t : FileTree) (place q : List String) (bytes : List Nat) :
    (t.put place bytes).file? q = if q = place then some bytes else t.file? q := by
  unfold put
  split
  · rename_i hsome
    rw [file?, lookup_map_update]
    split
    · rename_i heq
      subst heq
      obtain ⟨old, hold⟩ := Option.isSome_iff_exists.mp hsome
      rw [file?] at hold
      rw [hold, Option.map_some]
    · rfl
  · rename_i hnone
    rw [Bool.not_eq_true, Option.isSome_eq_false_iff, Option.isNone_iff_eq_none, file?] at hnone
    rw [file?, List.lookup_append, List.lookup_cons, List.lookup_nil]
    split
    · rename_i heq
      rw [beq_iff_eq] at heq
      rw [heq, if_pos rfl, hnone, Option.none_or]
    · rename_i hne
      rw [beq_eq_false_iff_ne] at hne
      rw [if_neg hne, Option.or_none, file?]

theorem isDirectory_put (h : t.isDirectory here = true) :
    (t.put place bytes).isDirectory here = true := by
  unfold isDirectory at h ⊢
  unfold put
  split
  · have hkey : ∀ f : List String × List Nat,
        (if f.1 == place then (place, bytes) else f).1 = f.1 := by
      intro f
      split
      · rename_i heq
        exact (beq_iff_eq.mp heq).symm
      · rfl
    simpa only [List.any_map, Function.comp_def, hkey] using h
  · simp only [List.any_append, Bool.or_eq_true] at h ⊢
    exact h.imp_right Or.inl

/-- A file is never put where a directory is, so it blocks no way. -/
theorem keepsWays_put (hplace : t.isDirectory place = false) :
    t.KeepsWays (t.put place bytes) where
  home_eq := by
    unfold put
    split
    · rfl
    · rfl
  directory_kept here hfile hdirectory := by
    have hne : here ≠ place := by
      rintro rfl
      exact Bool.false_ne_true (hplace.symm.trans hdirectory)
    exact ⟨by rw [file?_put, if_neg hne, hfile], isDirectory_put hdirectory⟩

theorem KeepsWays.enter_eq_ok {step : String} (h : t.KeepsWays t')
    (henter : t.enter here step = .ok place) : t'.enter here step = .ok place := by
  unfold enter at henter ⊢
  split at henter
  · cases henter
  · rename_i hfile
    rw [Bool.not_eq_true, Option.isSome_eq_false_iff, Option.isNone_iff_eq_none] at hfile
    split at henter
    · cases henter
    · rename_i hdirectory
      rw [Bool.not_eq_true, Bool.not_eq_false'] at hdirectory
      obtain ⟨hfile', hdirectory'⟩ := h.directory_kept here hfile hdirectory
      simpa [hfile', hdirectory'] using henter

theorem KeepsWays.foldlM_enter_eq_ok {steps : List String} (h : t.KeepsWays t')
    (hwalk : steps.foldlM t.enter here = .ok place) :
    steps.foldlM t'.enter here = .ok place := by
  induction steps generalizing here with
  | nil => exact hwalk
  | cons step steps ih =>
      obtain ⟨next, hnext, hrest⟩ := foldlM_cons_eq_ok_iff.mp hwalk
      exact foldlM_cons_eq_ok_iff.mpr ⟨next, h.enter_eq_ok hnext, ih hrest⟩

theorem KeepsWays.locate_eq_ok (h : t.KeepsWays t') (hlocate : t.locate p = .ok place) :
    t'.locate p = .ok place := by
  obtain ⟨⟨⟩, hcheck, hwalk⟩ := bind_eq_ok_iff.mp hlocate
  refine bind_eq_ok_iff.mpr ⟨(), hcheck, ?_⟩
  rw [h.home_eq]
  exact h.foldlM_enter_eq_ok hwalk

/-- The file is found at the path. -/
def Holds (t : FileTree) (p : Path) (bytes : List Nat) : Prop :=
  ∃ place, t.locate p = .ok place ∧ t.file? place = some bytes

theorem read_eq_file_iff : t.read p = .file bytes ↔ t.Holds p bytes := by
  unfold read Holds
  cases t.locate p with
  | ok place =>
      cases hfile : t.file? place with
      | some old => simp [hfile]
      | none =>
          simp only [Except.ok.injEq, exists_eq_left', hfile, reduceCtorEq, iff_false]
          split <;> simp
  | error fault => cases fault <;> simp

/-- What is written is there, and everything else is as it was. -/
structure Writes (t : FileTree) (p : Path) (bytes : List Nat) (t' : FileTree) : Prop where
  keepsWays : t.KeepsWays t'
  exists_place : ∃ place, t'.locate p = .ok place ∧ t'.file? place = some bytes ∧
    ∀ other ≠ place, t'.file? other = t.file? other

theorem writes_of_write (h : t.write p bytes = .ok t') : t.Writes p bytes t' := by
  obtain ⟨made, hmade, h⟩ := bind_eq_ok_iff.mp h
  obtain ⟨place, hplace, h⟩ := bind_eq_ok_iff.mp h
  have hextends := requireDirectories_extends hmade
  split at h
  · cases h
  · rename_i hdirectory
    rw [Bool.not_eq_true] at hdirectory
    obtain rfl := Except.ok.inj h
    have hput : made.KeepsWays (made.put place bytes) := keepsWays_put hdirectory
    refine ⟨hextends.keepsWays.trans hput, place, hput.locate_eq_ok hplace, ?_, ?_⟩
    · rw [file?_put, if_pos rfl]
    · intro other hne
      rw [file?_put, if_neg hne, file?, hextends.files_eq, file?]

/-- A file is kept when another is written elsewhere. -/
theorem Holds.of_writes {written : List Nat} (h : t.Holds q bytes) (hwrites : t.Writes p written t')
    (hne : t'.locate p ≠ t'.locate q) : t'.Holds q bytes := by
  obtain ⟨place, hplace, hfile⟩ := h
  obtain ⟨target, htarget, -, hothers⟩ := hwrites.exists_place
  have hplace' := hwrites.keepsWays.locate_eq_ok hplace
  refine ⟨place, hplace', ?_⟩
  rw [hothers place ?_, hfile]
  rintro rfl
  exact hne (htarget.trans hplace'.symm)

theorem enter_eq_append {step : String} (hstep : step ≠ "..")
    (h : t.enter here step = .ok place) : place = here ++ [step] := by
  unfold enter at h
  split at h
  · cases h
  · split at h
    · cases h
    · split at h
      · cases h
      · exact (Except.ok.inj h).symm

theorem foldlM_enter_eq_append {steps : List String} (hsteps : ".." ∉ steps)
    (h : steps.foldlM t.enter here = .ok place) : place = here ++ steps := by
  induction steps generalizing here with
  | nil =>
      obtain rfl := Except.ok.inj h
      exact (List.append_nil here).symm
  | cons step steps ih =>
      rw [List.mem_cons, not_or] at hsteps
      obtain ⟨next, hnext, hrest⟩ := foldlM_cons_eq_ok_iff.mp h
      rw [ih hsteps.2 hrest, enter_eq_append (Ne.symm hsteps.1) hnext, List.append_assoc,
        List.singleton_append]

/-- Different steps down from one directory lead to different places. -/
theorem locate_inside_ne {outDir : Path} {steps steps' : List String} (hsteps : ".." ∉ steps)
    (hsteps' : ".." ∉ steps') (hne : steps ≠ steps')
    (hplace : t.locate (outDir.inside steps) = .ok place) :
    t.locate (outDir.inside steps) ≠ t.locate (outDir.inside steps') := by
  intro hsame
  rw [hplace] at hsame
  have hwalk : ∀ {steps}, ".." ∉ steps → t.locate (outDir.inside steps) = .ok place →
      ∃ above, outDir.steps.foldlM t.enter (if outDir.isAbsolute then [] else t.home) = .ok above ∧
        place = above ++ steps := by
    intro steps hsteps h
    obtain ⟨⟨⟩, -, h⟩ := bind_eq_ok_iff.mp h
    obtain ⟨above, habove, hbelow⟩ := foldlM_append_eq_ok_iff.mp h
    exact ⟨above, habove, foldlM_enter_eq_append hsteps hbelow⟩
  obtain ⟨above, habove, rfl⟩ := hwalk hsteps hplace
  obtain ⟨above', habove', heq⟩ := hwalk hsteps' hsame.symm
  obtain rfl := Except.ok.inj (habove.symm.trans habove')
  exact hne (List.append_cancel_left heq)

end FileTree

end Glossary.CommandLine
