import Glossary.Dictionary.Terms
import Glossary.Proofs.Fallible
import Glossary.Proofs.Words

/-!
How lines become blocks: what each line does to the blocks begun so far, and what therefore holds of
all blocks of a text.
-/

namespace Glossary.Dictionary

open Text Fallible

variable {o next last : Outline} {number : Nat} {line : List Char} {ls ls' : List (List Char)}
  {name text : String} {body : List Char} {b : Block}

def Block.withStatement (b : Block) (number : Nat) (body : String) : Block :=
  { b with statements := b.statements ++ [(number, body)] }

def Block.withDefinition (b : Block) (text : String) : Block :=
  { b with definition := b.definition ++ [text] }

theorem heading?_eq_none_of_blank (hline : ∀ c ∈ line, isBlank c = true) : heading? line = none := by
  have hmarked : trimStart line = [] := List.dropWhile_eq_nil_iff.mpr hline
  simp [heading?, hmarked]

theorem LineShape.ofLine?_of_heading? {title : List Char} (h : heading? line = some title) :
    LineShape.ofLine? line = some (.heading (String.ofList (collapse title))) := by
  unfold LineShape.ofLine?
  rw [if_neg, h]
  intro hblank
  rw [heading?_eq_none_of_blank (by simpa using hblank)] at h
  cases h

/-- What a line makes of the blocks begun so far. -/
inductive Outline.Takes (o : Outline) (number : Nat) (line : List Char) : Outline → Prop
  | passed : o.Takes number line o
  | heading (name : String) (hshape : LineShape.ofLine? line = some (.heading name)) :
      o.Takes number line ⟨o.blocks, some ⟨name, number, [], []⟩⟩
  | bullet (b : Block) (body : List Char) (hcurrent : o.current = some b)
      (hshape : LineShape.ofLine? line = some (.bullet body)) :
      o.Takes number line ⟨o.closed, some (b.withStatement number (String.ofList body))⟩
  | plain (b : Block) (text : String) (hcurrent : o.current = some b)
      (hshape : LineShape.ofLine? line = some (.plain text)) :
      o.Takes number line ⟨o.closed, some (b.withDefinition text)⟩

namespace Outline

theorem takes_of_addLine (h : o.addLine number line = .ok next) : o.Takes number line next := by
  obtain ⟨closed, current⟩ := o
  unfold addLine at h
  cases hshape : LineShape.ofLine? line with
  | none =>
      rw [hshape] at h
      obtain rfl := Except.ok.inj h
      exact Takes.passed
  | some shape =>
      rw [hshape] at h
      cases shape with
      | heading name =>
          obtain rfl := Except.ok.inj h
          exact Takes.heading name hshape
      | bullet body =>
          cases current with
          | none =>
              dsimp only at h
              split at h
              · cases h
              · obtain rfl := Except.ok.inj h
                exact Takes.passed
          | some b =>
              obtain rfl := Except.ok.inj h
              exact Takes.bullet b body rfl hshape
      | plain text =>
          cases current with
          | none =>
              obtain rfl := Except.ok.inj h
              exact Takes.passed
          | some b =>
              obtain rfl := Except.ok.inj h
              exact Takes.plain b text rfl hshape

theorem addLines_append (o : Outline) (number : Nat) (ls ls' : List (List Char)) :
    o.addLines number (ls ++ ls') =
      o.addLines number ls >>= fun next => next.addLines (number + ls.length) ls' := by
  induction ls generalizing o number with
  | nil => rfl
  | cons line ls ih =>
      rw [List.cons_append, addLines, addLines]
      cases o.addLine number line with
      | error stray => rfl
      | ok next =>
          change next.addLines (number + 1) (ls ++ ls') = _
          rw [ih, show number + 1 + ls.length = number + (line :: ls).length by
            simp only [List.length_cons]; omega]
          rfl

section Induction

/-- A property of blocks, in view of the number of the line that comes next, that every line keeps. -/
structure IsKept (ls : List (List Char)) (P : Nat → Block → Prop) : Prop where
  passed : ∀ number b, P number b → P (number + 1) b
  heading : ∀ number name, (∃ line ∈ ls, LineShape.ofLine? line = some (.heading name)) →
    P (number + 1) ⟨name, number, [], []⟩
  bullet : ∀ number b body, (∃ line ∈ ls, LineShape.ofLine? line = some (.bullet body)) →
    P number b → P (number + 1) (b.withStatement number (String.ofList body))
  plain : ∀ number b text, (∃ line ∈ ls, LineShape.ofLine? line = some (.plain text)) →
    P number b → P (number + 1) (b.withDefinition text)

variable {P : Nat → Block → Prop}

theorem Takes.keeps (h : o.Takes number line next) (hP : IsKept ls P) (hline : line ∈ ls)
    (ho : ∀ b ∈ o.blocks, P number b) : ∀ b ∈ next.blocks, P (number + 1) b := by
  have hcurrent : ∀ b b', o.current = some b → P (number + 1) b' →
      ∀ x ∈ Outline.blocks ⟨o.closed, some b'⟩, P (number + 1) x := by
    intro b b' hb hb' x hx
    rcases List.mem_append.mp hx with hx | hx
    · exact hP.passed number x (ho x (List.mem_append_left _ hx))
    · obtain rfl : x = b' := by simpa using hx
      exact hb'
  cases h with
  | passed => exact fun b hb => hP.passed number b (ho b hb)
  | heading name hshape =>
      intro b hb
      rcases List.mem_append.mp hb with hb | hb
      · exact hP.passed number b (ho b hb)
      · obtain rfl : b = ⟨name, number, [], []⟩ := by simpa using hb
        exact hP.heading number name ⟨line, hline, hshape⟩
  | bullet b body hb hshape =>
      refine hcurrent b _ hb (hP.bullet number b body ⟨line, hline, hshape⟩ (ho b ?_))
      simp [blocks, hb]
  | plain b text hb hshape =>
      refine hcurrent b _ hb (hP.plain number b text ⟨line, hline, hshape⟩ (ho b ?_))
      simp [blocks, hb]

theorem addLines_keeps {all : List (List Char)} (hP : IsKept all P) (hls : ∀ line ∈ ls, line ∈ all)
    (h : o.addLines number ls = .ok last) (ho : ∀ b ∈ o.blocks, P number b) :
    ∀ b ∈ last.blocks, P (number + ls.length) b := by
  induction ls generalizing o number with
  | nil =>
      obtain rfl := Except.ok.inj h
      exact ho
  | cons line ls ih =>
      obtain ⟨next, hnext, hrest⟩ := bind_eq_ok_iff.mp h
      obtain ⟨hline, hls⟩ := List.forall_mem_cons.mp hls
      have hkept := ih hls hrest ((takes_of_addLine hnext).keeps hP hline ho)
      rwa [Nat.add_assoc, Nat.add_comm 1] at hkept

end Induction

end Outline

/-- What every line keeps holds of all blocks of a text. -/
theorem forall_mem_blocks {text : List Char} {bs : List Block} {P : Nat → Block → Prop}
    (hP : Outline.IsKept (lines text) P) (h : blocks text = .ok bs) :
    ∀ b ∈ bs, P (1 + (lines text).length) b := by
  obtain ⟨last, hlast, rfl⟩ := exists_of_map_eq_ok h
  exact Outline.addLines_keeps hP (fun _ hline => hline) hlast (by simp [Outline.blocks, Outline.empty])

end Glossary.Dictionary
