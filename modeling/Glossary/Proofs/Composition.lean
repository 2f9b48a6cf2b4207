import Glossary.Proofs.Declarations
import Glossary.Proofs.Outlines
import Glossary.Proofs.ParsedTerms

/-!
A dictionary put behind another one is read as by itself, only further down.
-/

namespace Glossary

def Relationship.shift (k : Nat) (r : Relationship) : Relationship :=
  { r with line := r.line.map fun line => line + k }

/-- The term as it is read when it stands `k` lines further down. -/
def Term.shift (k : Nat) (t : Term) : Term :=
  { t with
    relationships := t.relationships.map (Relationship.shift k)
    line := t.line.map fun line => line + k }

theorem Term.map_key_shift (k : Nat) (ts : List Term) :
    (ts.map (Term.shift k)).map Term.key = ts.map Term.key := by
  rw [List.map_map]
  rfl

/-- A relationship is known by what it says and where it stands. -/
theorem Relationship.eq_of_map_eq {rs rs' : List Relationship}
    (hsame : rs.map Relationship.unnumbered = rs'.map Relationship.unnumbered)
    (hline : rs.map Relationship.line = rs'.map Relationship.line) : rs = rs' := by
  have hinj : Function.Injective fun r : Relationship => (r.unnumbered, r.line) := by
    rintro ⟨relation, source, target, line⟩ ⟨relation', source', target', line'⟩ h
    simpa [Relationship.unnumbered, and_assoc] using h
  apply List.map_injective_iff.mpr hinj
  rw [← List.zip_map', ← List.zip_map', hsame, hline]

namespace Dictionary

open Text Fallible

variable {primitives : Primitives} {a b : String} {block : Block} {bs : List Block} {o : Outline}
  {k : Nat} {line text text' : List Char} {ls : List (List Char)} {t t' : Term} {ts us : List Term}

def Block.shift (k : Nat) (b : Block) : Block :=
  { b with line := b.line + k, statements := b.statements.map fun s => (s.1 + k, s.2) }

/-- The blocks when they stand behind others, `k` lines further down. -/
def Outline.behind (before : List Block) (k : Nat) (o : Outline) : Outline :=
  ⟨before ++ o.closed.map (Block.shift k), o.current.map (Block.shift k)⟩

namespace Outline

theorem blocks_behind (before : List Block) (k : Nat) (o : Outline) :
    (o.behind before k).blocks = before ++ o.blocks.map (Block.shift k) := by
  cases h : o.current with
  | none => simp [behind, blocks, h]
  | some block => simp [behind, blocks, h]

/-- Below a heading no line fails, and what it does is the same behind other blocks. -/
theorem addLine_behind (ho : o.current.isSome = true) (number : Nat) (line : List Char) :
    ∃ next, o.addLine number line = .ok next ∧ next.current.isSome = true ∧
      ∀ before k, (o.behind before k).addLine (number + k) line = .ok (next.behind before k) := by
  obtain ⟨closed, _ | block⟩ := o
  · cases ho
  · unfold addLine
    cases LineShape.ofLine? line with
    | none => exact ⟨_, rfl, rfl, fun before k => rfl⟩
    | some shape =>
        cases shape with
        | heading name =>
            refine ⟨_, rfl, rfl, fun before k => ?_⟩
            dsimp only
            rw [blocks_behind]
            rfl
        | bullet body =>
            refine ⟨_, rfl, rfl, fun before k => ?_⟩
            simp [behind, Block.shift]
        | plain text => exact ⟨_, rfl, rfl, fun before k => rfl⟩

theorem addLines_behind (ho : o.current.isSome = true) (number : Nat) (ls : List (List Char)) :
    ∃ last, o.addLines number ls = .ok last ∧
      ∀ before k, (o.behind before k).addLines (number + k) ls = .ok (last.behind before k) := by
  induction ls generalizing o number with
  | nil => exact ⟨o, rfl, fun before k => rfl⟩
  | cons line ls ih =>
      obtain ⟨next, hnext, hcurrent, hbehind⟩ := addLine_behind ho number line
      obtain ⟨last, hlast, hlastBehind⟩ := ih hcurrent (number + 1)
      refine ⟨last, bind_eq_ok_iff.mpr ⟨next, hnext, hlast⟩, fun before k => ?_⟩
      rw [addLines, hbehind]
      have hrest := hlastBehind before k
      rwa [Nat.add_right_comm] at hrest

/-- A heading closes all blocks above it. -/
theorem addLines_heading (hline : (heading? line).isSome = true) (ls : List (List Char)) :
    ∃ last, empty.addLines 1 (line :: ls) = .ok last ∧
      ∀ (o : Outline) k, o.addLines (1 + k) (line :: ls) = .ok (last.behind o.blocks k) := by
  obtain ⟨name, hname⟩ := Option.isSome_iff_exists.mp hline
  let opened (number : Nat) : Block := ⟨String.ofList (collapse name), number, [], []⟩
  have hopens : ∀ (o : Outline) number,
      o.addLine number line = .ok ⟨o.blocks, some (opened number)⟩ := by
    intro o number
    rw [addLine, LineShape.ofLine?_of_heading? hname]
  obtain ⟨last, hlast, hbehind⟩ := addLines_behind (o := ⟨[], some (opened 1)⟩) rfl 2 ls
  refine ⟨last, bind_eq_ok_iff.mpr ⟨_, hopens empty 1, hlast⟩, fun o k => ?_⟩
  refine bind_eq_ok_iff.mpr ⟨_, hopens o (1 + k), ?_⟩
  have hrest := hbehind o.blocks k
  rw [show 2 + k = 1 + k + 1 by omega] at hrest
  rw [← hrest]
  simp [behind, opened, Block.shift]

end Outline

/-- The first line is a heading. -/
def BeginsWithHeading (text : List Char) : Prop :=
  ∃ line more, lines text = line :: more ∧ (heading? line).isSome = true

theorem BeginsWithHeading.head?_ne (h : BeginsWithHeading text) : text.head? ≠ some '\n' := by
  obtain ⟨line, more, hlines, hheading⟩ := h
  intro hhead
  obtain ⟨rest, rfl⟩ := List.head?_eq_some_iff.mp hhead
  rw [lines_cons_of_break rfl fun h => absurd h (by decide)] at hlines
  obtain ⟨rfl, -⟩ := List.cons.inj hlines
  cases hheading

/-- The blocks of a text do not depend on what is above its first heading. -/
theorem blocks_append (htext : EndsLine text) (htext' : BeginsWithHeading text') :
    ∃ bs, blocks text' = .ok bs ∧ blocks (text ++ text') =
      (blocks text).map fun before => before ++ bs.map (Block.shift (lines text).length) := by
  have hfeed := htext'.head?_ne
  obtain ⟨line, more, hlines, hheading⟩ := htext'
  obtain ⟨last, hlast, hbehind⟩ := Outline.addLines_heading hheading more
  refine ⟨last.blocks, ?_, ?_⟩
  · rw [blocks, hlines, hlast]
    rfl
  · rw [blocks, blocks, lines_append htext hfeed, Outline.addLines_append, hlines]
    cases Outline.empty.addLines 1 (lines text) with
    | error stray => rfl
    | ok o =>
        change (o.addLines (1 + (lines text).length) (line :: more)).map Outline.blocks = _
        rw [hbehind]
        exact congrArg Except.ok (Outline.blocks_behind o.blocks (lines text).length last)

theorem Block.unnumbered_shift (k : Nat) (b : Block) : (b.shift k).unnumbered = b.unnumbered := by
  simp [unnumbered, shift]

theorem Block.eq_shift_of_term (h : block.term primitives = .ok t)
    (h' : (block.shift k).term primitives = .ok t') (hsame : t'.unnumbered = t.unnumbered) :
    t' = t.shift k := by
  obtain ⟨hline, hlines⟩ := Block.lines_of_term h
  obtain ⟨hline', hlines'⟩ := Block.lines_of_term h'
  have hrelationships : t'.relationships = t.relationships.map (Relationship.shift k) := by
    apply Relationship.eq_of_map_eq
    · rw [List.map_map]
      exact congrArg Term.relationships hsame
    · rw [hlines', List.map_map]
      have hmap := congrArg (List.map fun line => line.map fun n : Int => n + k) hlines
      rw [List.map_map, List.map_map] at hmap
      refine Eq.trans ?_ hmap.symm
      simp [Block.shift, List.filter_map, Function.comp_def]
  obtain ⟨name, definition, type, identifier, relationships, line⟩ := t
  obtain ⟨name', definition', type', identifier', relationships', line'⟩ := t'
  simp only [Term.unnumbered, Term.mk.injEq] at hsame
  obtain ⟨rfl, rfl, rfl, rfl, -, -⟩ := hsame
  dsimp only at hline hline' hrelationships
  subst hline hline' hrelationships
  rfl

/-- A block declares the same term wherever it stands. -/
theorem Block.term_shift_eq_ok_iff : (block.shift k).term primitives = .ok t' ↔
    ∃ t, block.term primitives = .ok t ∧ t' = t.shift k := by
  have hdeclared : (block.shift k).declared? primitives = block.declared? primitives :=
    Block.declared?_congr (block.unnumbered_shift k)
  rcases error_or_ok_of_toOption_eq hdeclared with
    ⟨error, error', hshift, hblock⟩ | ⟨u', u, hshift, hblock, hsame⟩
  · simp [hshift, hblock]
  · obtain rfl := Block.eq_shift_of_term hblock hshift hsame
    simp [hshift, hblock, eq_comm]

theorem mapM_term_shift_eq_ok_iff : (bs.map (Block.shift k)).mapM (Block.term primitives) = .ok us ↔
    ∃ ts, bs.mapM (Block.term primitives) = .ok ts ∧ us = ts.map (Term.shift k) := by
  simp only [mapM_eq_ok_iff_forall₂, List.forall₂_map_left_iff, Block.term_shift_eq_ok_iff]
  constructor
  · intro h
    induction h with
    | nil => exact ⟨[], List.Forall₂.nil, rfl⟩
    | cons hterm _ ih =>
        obtain ⟨t, ht, rfl⟩ := hterm
        obtain ⟨ts, hts, rfl⟩ := ih
        exact ⟨t :: ts, List.Forall₂.cons ht hts, rfl⟩
  · rintro ⟨ts, hts, rfl⟩
    rw [List.forall₂_map_right_iff]
    exact hts.imp fun block t ht => ⟨t, ht, rfl⟩

/-- Reading goes on below the end of a text with the terms that were found in it. -/
theorem exists_terms_append (primitives : Primitives) (ha : EndsLine a.toList)
    (hb : BeginsWithHeading b.toList) : ∃ bs, blocks b.toList = .ok bs ∧
      terms primitives (a ++ b) = terms primitives a >>= fun ts =>
        (bs.map (Block.shift (lines a.toList).length)).foldlM (addTerm primitives) ts := by
  obtain ⟨bs, hbs, happend⟩ := blocks_append ha hb
  refine ⟨bs, hbs, ?_⟩
  unfold terms
  rw [String.toList_append, happend]
  cases blocks a.toList with
  | error stray => rfl
  | ok before => exact List.foldlM_append

section Below

variable {after : List Term} {u first : Term} (hts : (ts.map Term.key).Nodup)

include hts

theorem foldlM_shift_eq_ok (hus : bs.mapM (Block.term primitives) = .ok us)
    (hnodup : (us.map Term.key).Nodup) (hfresh : ∀ u ∈ us, u.key ∉ ts.map Term.key) :
    (bs.map (Block.shift k)).foldlM (addTerm primitives) ts = .ok (ts ++ us.map (Term.shift k)) := by
  rw [foldlM_addTerm_eq_ok_iff hts]
  refine ⟨_, mapM_term_shift_eq_ok_iff.mpr ⟨us, hus, rfl⟩, rfl, ?_⟩
  rw [List.map_append, Term.map_key_shift]
  refine hts.append hnodup ?_
  rw [List.disjoint_comm]
  exact List.forall_mem_map.mpr hfresh

theorem exists_mapM_of_foldlM_shift
    (h : (bs.map (Block.shift k)).foldlM (addTerm primitives) ts = .ok us) :
    ∃ ts', bs.mapM (Block.term primitives) = .ok ts' ∧ (ts'.map Term.key).Nodup := by
  obtain ⟨us', hus', rfl, hnodup⟩ := (foldlM_addTerm_eq_ok_iff hts).mp h
  obtain ⟨ts', hts', rfl⟩ := mapM_term_shift_eq_ok_iff.mp hus'
  rw [List.map_append, Term.map_key_shift] at hnodup
  exact ⟨ts', hts', hnodup.of_append_right⟩

theorem addTerm_eq_duplicateTerm (hblock : block.term primitives = .ok u) (hfirst : first ∈ ts)
    (hkey : first.key = u.key) (us : List Term) : addTerm primitives (ts ++ us) block =
      .error ⟨.duplicateTerm first, some block.name, block.line⟩ := by
  have hfind := (find?_key_eq_some_iff hts).mpr ⟨hfirst, hkey⟩
  refine bind_eq_error_iff.mpr (Or.inr ⟨u, hblock, ?_⟩)
  rw [List.find?_append, hfind]
  rfl

theorem foldlM_shift_eq_error {us : List Term}
    (hus : bs.mapM (Block.term primitives) = .ok (us ++ u :: after))
    (hnodup : ((us ++ u :: after).map Term.key).Nodup) (hfresh : ∀ v ∈ us, v.key ∉ ts.map Term.key)
    (hfirst : first ∈ ts) (hkey : first.key = u.key) :
    ∃ line : Nat, u.line = some (line : Int) ∧
      (bs.map (Block.shift k)).foldlM (addTerm primitives) ts =
        .error ⟨.duplicateTerm first, some u.name, line + k⟩ := by
  obtain ⟨front, block, back, rfl, hfront, hblock⟩ := exists_of_mapM_eq_append hus
  rw [List.map_append] at hnodup
  have hshift : (block.shift k).term primitives = .ok (u.shift k) :=
    Block.term_shift_eq_ok_iff.mpr ⟨u, hblock, rfl⟩
  refine ⟨block.line, (Block.lines_of_term hblock).1, foldlM_eq_error_iff.mpr ?_⟩
  refine ⟨front.map (Block.shift k), block.shift k, back.map (Block.shift k), _, by simp,
    foldlM_shift_eq_ok hts hfront hnodup.of_append_left hfresh, ?_⟩
  rw [addTerm_eq_duplicateTerm hts hshift hfirst hkey, Block.term_name hblock]
  rfl

end Below

/-- The first of the terms whose key is taken, and the term that has taken it. -/
theorem exists_first_clash (h : ∃ u ∈ us, u.key ∈ ts.map Term.key) :
    ∃ before u after first, us = before ++ u :: after ∧
      (∀ v ∈ before, v.key ∉ ts.map Term.key) ∧ first ∈ ts ∧ first.key = u.key := by
  obtain ⟨v, hv, hclash⟩ := h
  have hsome : (us.find? fun u => u.key ∈ ts.map Term.key).isSome = true :=
    List.find?_isSome.mpr ⟨v, hv, by simpa using hclash⟩
  obtain ⟨u, hu⟩ := Option.isSome_iff_exists.mp hsome
  obtain ⟨hmem, before, after, rfl, hbefore⟩ := List.find?_eq_some_iff_append.mp hu
  obtain ⟨first, hfirst, hkey⟩ := List.mem_map.mp (by simpa using hmem)
  exact ⟨before, u, after, first, rfl, fun w hw => by simpa using hbefore w hw, hfirst, hkey⟩

/-- The text has no heading and makes no statement. -/
def IsPreamble (text : List Char) : Prop :=
  ∀ line ∈ lines text, heading? line = none ∧
    ∀ body, bullet? line = some body → Statement.ofText? body = none

theorem addLines_empty_of_isPreamble (number : Nat) (hls : ∀ line ∈ ls, heading? line = none ∧
    ∀ body, bullet? line = some body → Statement.ofText? body = none) :
    Outline.empty.addLines number ls = .ok Outline.empty := by
  induction ls generalizing number with
  | nil => rfl
  | cons line ls ih =>
      obtain ⟨⟨hheading, hbullet⟩, hls⟩ := List.forall_mem_cons.mp hls
      refine bind_eq_ok_iff.mpr ⟨Outline.empty, ?_, ih (number + 1) hls⟩
      unfold Outline.addLine LineShape.ofLine?
      rw [hheading]
      split_ifs
      · rfl
      · cases hbody : bullet? line with
        | none => rfl
        | some body => simp [Outline.empty, hbullet body hbody]

theorem terms_of_isPreamble (ha : IsPreamble a.toList) : terms primitives a = .ok [] := by
  unfold terms blocks
  rw [addLines_empty_of_isPreamble 1 ha]
  rfl

/-- What comes of a dictionary `b` that is put below a text `a`. -/
structure Composes (primitives : Primitives) (a b : String) : Prop where
  failed : ∀ e, terms primitives a = .error e → terms primitives (a ++ b) = .error e
  joined : ∀ ts us, terms primitives a = .ok ts → terms primitives b = .ok us →
    (∀ u ∈ us, u.key ∉ ts.map Term.key) →
    terms primitives (a ++ b) = .ok (ts ++ us.map (Term.shift (lines a.toList).length))
  clashing : ∀ ts us, terms primitives a = .ok ts → terms primitives b = .ok us →
    (∃ u ∈ us, u.key ∈ ts.map Term.key) →
    ∃ (before : List Term) (u : Term) (after : List Term) (first : Term) (line : Nat),
      us = before ++ u :: after ∧ (∀ v ∈ before, v.key ∉ ts.map Term.key) ∧
        first ∈ ts ∧ first.key = u.key ∧ u.line = some (line : Int) ∧
        terms primitives (a ++ b) =
          .error ⟨.duplicateTerm first, some u.name, line + (lines a.toList).length⟩
  failing : ∀ ts e, terms primitives a = .ok ts → terms primitives b = .error e →
    ∃ e', terms primitives (a ++ b) = .error e'
  preamble : IsPreamble a.toList → ∀ us, terms primitives b = .ok us →
    terms primitives (a ++ b) = .ok (us.map (Term.shift (lines a.toList).length))

/-- Blocks are read independently of each other, apart from keys that are taken. -/
theorem terms_composes (primitives : Primitives) {a b : String} (ha : EndsLine a.toList)
    (hb : BeginsWithHeading b.toList) : Composes primitives a b := by
  obtain ⟨bs, hbs, happend⟩ := exists_terms_append primitives ha hb
  have hbelow : ∀ us, terms primitives b = .ok us →
      bs.mapM (Block.term primitives) = .ok us ∧ (us.map Term.key).Nodup := by
    intro us hus
    obtain ⟨bs', hbs', hterms⟩ := terms_eq_ok_iff.mp hus
    obtain rfl : bs = bs' := Except.ok.inj (hbs.symm.trans hbs')
    exact hterms
  have habove : ∀ ts, terms primitives a = .ok ts → (ts.map Term.key).Nodup := by
    intro ts hts
    obtain ⟨-, -, -, hnodup⟩ := terms_eq_ok_iff.mp hts
    exact hnodup
  have hjoined : ∀ ts us, terms primitives a = .ok ts → terms primitives b = .ok us →
      (∀ u ∈ us, u.key ∉ ts.map Term.key) →
      terms primitives (a ++ b) = .ok (ts ++ us.map (Term.shift (lines a.toList).length)) := by
    intro ts us hts hus hfresh
    obtain ⟨hmap, hnodup⟩ := hbelow us hus
    rw [happend, hts]
    exact foldlM_shift_eq_ok (habove ts hts) hmap hnodup hfresh
  constructor
  case failed =>
    intro e he
    rw [happend, he]
    rfl
  case joined => exact hjoined
  case clashing =>
    intro ts us hts hus hclash
    obtain ⟨before, u, after, first, rfl, hfresh, hfirst, hkey⟩ := exists_first_clash hclash
    obtain ⟨hmap, hnodup⟩ := hbelow _ hus
    obtain ⟨line, hline, herror⟩ := foldlM_shift_eq_error (k := (lines a.toList).length)
      (habove ts hts) hmap hnodup hfresh hfirst hkey
    refine ⟨before, u, after, first, line, rfl, hfresh, hfirst, hkey, hline, ?_⟩
    rw [happend, hts]
    exact herror
  case failing =>
    intro ts e hts he
    cases hall : terms primitives (a ++ b) with
    | error e' => exact ⟨e', rfl⟩
    | ok all =>
        rw [happend, hts] at hall
        obtain ⟨us, hus, hnodup⟩ := exists_mapM_of_foldlM_shift (habove ts hts) hall
        rw [terms_eq_ok_iff.mpr ⟨bs, hbs, hus, hnodup⟩] at he
        cases he
  case preamble =>
    intro ha us hus
    exact hjoined [] us (terms_of_isPreamble ha) hus (by simp)

/-- A person is declared below the customer. -/
theorem sales_person_composes :
    EndsLine salesText.toList ∧ BeginsWithHeading "# Person\nWho lives.\n- Person has a Pet\n".toList ∧
      terms (.ofNames builtInPrimitives) (salesText ++ "# Person\nWho lives.\n- Person has a Pet\n") =
        .ok (salesTerms ++ [⟨"Person", "Who lives.", none, none,
          [⟨.composes, "Person", "Pet", some 13⟩], some 11⟩]) := by
  have hsales : EndsLine salesText.toList := by
    have hlast : salesText.toList.getLast? = some '\n' := by decide +kernel
    intro c hc
    obtain rfl : '\n' = c := Option.some.inj (hlast.symm.trans hc)
    rfl
  have hperson : BeginsWithHeading "# Person\nWho lives.\n- Person has a Pet\n".toList :=
    ⟨_, _, rfl, rfl⟩
  have hlength : (lines salesText.toList).length = 10 := by decide +kernel
  have hjoined := (terms_composes (.ofNames builtInPrimitives) hsales hperson).joined salesTerms
    [⟨"Person", "Who lives.", none, none, [⟨.composes, "Person", "Pet", some 3⟩], some 1⟩]
    terms_salesText (eq_ok_of_toOption_eq_some (by decide +kernel)) (by decide +kernel)
  rw [hlength] at hjoined
  exact ⟨hsales, hperson, hjoined⟩

end Dictionary

end Glossary
