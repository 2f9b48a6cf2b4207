import Glossary.Proofs.Declarations
import Glossary.Proofs.Independence
import Glossary.Proofs.Outlines
import Glossary.Proofs.Scripts

/-!
The first line of a script names the term, and the name of a term that was read from a text has no
line break in it. So scripts of terms with different names are different texts.
-/

namespace Glossary

open Fallible

namespace Text

/-- No line ends within the text. -/
def IsOneLine (text : String) : Prop :=
  '\n' ∉ text.toList

theorem isOneLine_collapse (cs : List Char) : IsOneLine (String.ofList (collapse cs)) := by
  unfold IsOneLine
  rw [String.toList_ofList]
  intro hmem
  rcases mem_joinWords hmem with hspace | ⟨w, hw, hbreak⟩
  · cases hspace
  · have hsolid := (isWord_of_mem_words hw).solid '\n' hbreak
    exact absurd hsolid (by decide)

end Text

namespace Dictionary

open Text

theorem LineShape.isOneLine_of_heading {line : List Char} {name : String}
    (h : LineShape.ofLine? line = some (.heading name)) : IsOneLine name := by
  unfold LineShape.ofLine? at h
  split at h
  · cases h
  · split at h
    · obtain rfl := LineShape.heading.inj (Option.some.inj h)
      exact isOneLine_collapse _
    · split at h <;> cases h

theorem isKept_isOneLine (ls : List (List Char)) :
    Outline.IsKept ls fun _ b => IsOneLine b.name where
  passed _ _ hb := hb
  heading _ _ hshape := by
    obtain ⟨line, -, hshape⟩ := hshape
    exact LineShape.isOneLine_of_heading hshape
  bullet _ _ _ _ hb := hb
  plain _ _ _ _ hb := hb

theorem isOneLine_of_mem_terms {primitives : Primitives} {text : String} {ts : List Term}
    (h : terms primitives text = .ok ts) {t : Term} (ht : t ∈ ts) : IsOneLine t.name := by
  obtain ⟨bs, hbs, hts, -⟩ := terms_eq_ok_iff.mp h
  obtain ⟨b, hb, hterm⟩ := exists_of_mem_mapM hts ht
  rw [Block.term_name hterm]
  exact forall_mem_blocks (isKept_isOneLine _) hbs b hb

end Dictionary

theorem isOneLine_of_mem_termNames {settings : Settings} {text name : String}
    {c : CompiledDictionary} (hc : compile settings text = .ok c) (hname : name ∈ c.termNames) :
    Text.IsOneLine name := by
  obtain ⟨terms, g, hterms, hg, rfl⟩ := compile_eq_ok_iff.mp hc
  obtain ⟨rfl, -⟩ := Graph.build_eq_ok_iff.mp hg
  obtain ⟨t, ht, rfl⟩ := List.mem_map.mp hname
  change t ∈ (Graph.ofTerms _ terms).terms at ht
  rw [Graph.terms_ofTerms] at ht
  exact Dictionary.isOneLine_of_mem_terms hterms ht

namespace Sql

theorem Script.exists_render_eq (s : Script) : ∃ rest : String, s.render =
    "-- Validation tests for " ++ s.object ++ " (" ++ s.layer.name ++ " " ++
      (s.term ++ (")\n" ++ rest)) := by
  refine ⟨"-- Each statement returns one row; failures = 0 means the check passed.\n\n" ++
    ("\n\n".intercalate (renderFrom 1 s.assertions) ++ "\n"), ?_⟩
  unfold render
  simp only [String.append_assoc]

/-- Scripts about one object of one layer tell their terms apart. -/
theorem Script.term_eq_of_render_eq {s s' : Script} (hobject : s.object = s'.object)
    (hlayer : s.layer = s'.layer) (hterm : Text.IsOneLine s.term)
    (hterm' : Text.IsOneLine s'.term) (h : s.render = s'.render) : s.term = s'.term := by
  have hclosing : (")\n" : String).toList = [')', '\n'] := by simp
  have hfirst : ∀ cs : List Char, '\n' ∉ cs → ∀ rest,
      (cs ++ ([')', '\n'] ++ rest)).takeWhile (fun ch => ch != '\n') = cs ++ [')'] := by
    intro cs hcs rest
    show (cs ++ ')' :: ('\n' :: rest)).takeWhile _ = _
    rw [List.append_cons, List.takeWhile_append_of_pos]
    · simp
    · intro ch hch
      rw [bne_iff_ne]
      rintro rfl
      simp_all
  obtain ⟨rest, hrest⟩ := s.exists_render_eq
  obtain ⟨rest', hrest'⟩ := s'.exists_render_eq
  rw [h, hrest', hobject, hlayer] at hrest
  have hline := congrArg (fun text => text.toList.takeWhile fun ch => ch != '\n')
    ((String.append_right_inj _).mp hrest)
  simp only [String.toList_append, hclosing] at hline
  rw [hfirst _ hterm', hfirst _ hterm] at hline
  exact (String.toList_inj.mp (List.append_cancel_right hline)).symm

end Sql

end Glossary
