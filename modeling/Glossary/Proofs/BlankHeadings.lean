import Glossary.Proofs.Names
import Glossary.Proofs.ParsedTerms
import Glossary.Proofs.StatementPattern

/-!
Which terms have no name: those of headings that end in blanks where the name should be. All other
names in a term that is read have a word in them.
-/

namespace Glossary.Dictionary

open Text Fallible

variable {line cs title : List Char} {name text : String} {ls : List (List Char)} {number : Nat}
  {o next last : Outline} {bs : List Block} {names : List String} {primitives : Primitives}
  {ts : List Term} {t : Term} {d d' : Declared} {s : Statement} {ss : List (Nat × String)}
  {b : Block}

/-- The marks of a heading, and at least two blanks behind them. -/
inductive IsBlankHeading : List Char → Prop
  | mk (indent : List Char) (level : Nat) (gap : List Char)
      (hindent : ∀ c ∈ indent, isBlank c = true) (hshort : indent.length ≤ 3)
      (hlevel : 1 ≤ level ∧ level ≤ 6)
      (hgap : ∀ c ∈ gap, isBlank c = true) (hlong : 2 ≤ gap.length) :
      IsBlankHeading (indent ++ (List.replicate level '#' ++ gap))

section Headings

theorem words_headingName_ne (hfirst : ∀ c ∈ cs.head?, isBlank c = false) (hne : cs ≠ []) :
    words (headingName cs) ≠ [] := by
  obtain ⟨c, rest, rfl⟩ := List.exists_cons_of_ne_nil hne
  refine words_ne_nil_of_mem (c := c) ?_ (hfirst c rfl)
  rw [headingName]
  split <;> simp

theorem isBlankHeading_of_heading? (h : heading? line = some title) (hblank : words title = []) :
    IsBlankHeading line := by
  have hindent := List.takeWhile_append_dropWhile (p := isBlank) (l := line)
  have hmarked := List.takeWhile_append_dropWhile (p := fun c => c == '#') (l := trimStart line)
  have hmarks : (trimStart line).takeWhile (fun c => c == '#') =
      List.replicate ((trimStart line).takeWhile fun c => c == '#').length '#' :=
    List.eq_replicate_iff.mpr ⟨rfl, fun c hc => by simpa using List.mem_takeWhile_imp hc⟩
  have hlength := congrArg List.length hindent
  rw [List.length_append, show line.dropWhile isBlank = trimStart line from rfl] at hlength
  unfold heading? at h
  dsimp only at h
  split_ifs at h with hshape hname hgap
  · simp only [Bool.or_eq_true, decide_eq_true_eq, List.isEmpty_iff, beq_iff_eq, not_or, not_lt,
      and_assoc] at hshape
    obtain ⟨hshort, hsome, hsix, -⟩ := hshape
    have hheading := IsBlankHeading.mk (line.takeWhile isBlank)
      ((trimStart line).takeWhile fun c => c == '#').length
      ((trimStart line).dropWhile fun c => c == '#') (fun c hc => List.mem_takeWhile_imp hc)
      (by omega) ⟨List.length_pos_of_ne_nil hsome, hsix⟩
      (List.dropWhile_eq_nil_iff.mp (List.isEmpty_iff.mp hname)) (by omega)
    rwa [← hmarks, hmarked, show trimStart line = line.dropWhile isBlank from rfl,
      hindent] at hheading
  · rw [← Option.some.inj h] at hblank
    refine absurd hblank (words_headingName_ne (fun c hc => ?_) (by simpa using hname))
    have hhead := List.head?_dropWhile_not isBlank ((trimStart line).dropWhile fun c => c == '#')
    rw [show List.dropWhile isBlank _ = trimStart _ from rfl, hc] at hhead
    simpa using hhead

theorem heading?_of_isBlankHeading (h : IsBlankHeading line) : heading? line = some [' '] := by
  obtain ⟨indent, level, gap, hindent, hshort, ⟨hone, hsix⟩, hgap, hlong⟩ := h
  have hmarked : trimStart (indent ++ (List.replicate level '#' ++ gap)) =
      List.replicate level '#' ++ gap := by
    refine trimStart_append hindent fun c hc => ?_
    obtain ⟨more, rfl⟩ := Nat.exists_eq_add_of_le' hone
    obtain rfl : '#' = c := by simpa [List.replicate_succ] using hc
    rfl
  have hmarks : ∀ c ∈ List.replicate level '#', (c == '#') = true := by simp
  obtain ⟨c, more, rfl⟩ := List.exists_cons_of_ne_nil (l := gap) (by rintro rfl; simp at hlong)
  have hother : ¬(c == '#') = true := by
    intro hmark
    obtain rfl : c = '#' := by simpa using hmark
    exact absurd (hgap '#' List.mem_cons_self) (by decide)
  have htake : (List.replicate level '#' ++ c :: more).takeWhile (fun c => c == '#') =
      List.replicate level '#' := by
    rw [List.takeWhile_append_of_pos hmarks,
      List.takeWhile_cons_of_neg (p := fun c => c == '#') hother,       List.append_nil]
  have hdrop : (List.replicate level '#' ++ c :: more).dropWhile (fun c => c == '#') =
      c :: more := by
    rw [List.dropWhile_append_of_pos hmarks, 
      List.dropWhile_cons_of_neg (p := fun c => c == '#') hother]
  have hblank : trimStart (c :: more) = [] := List.dropWhile_eq_nil_iff.mpr hgap
  have hne : level ≠ 0 := by omega
  simp only [heading?, hmarked, htake, hdrop, hblank, List.length_append, Nat.add_sub_cancel,
    List.isEmpty_replicate, List.length_replicate, List.length_nil, Nat.sub_zero, List.isEmpty_nil,
    if_true]
  rw [if_neg (by simp [hne, hshort, hsix]), if_pos hlong]

theorem words_eq_nil_iff_isBlankHeading (h : heading? line = some title) :
    words title = [] ↔ IsBlankHeading line := by
  refine ⟨isBlankHeading_of_heading? h, fun hblank => ?_⟩
  rw [heading?_of_isBlankHeading hblank] at h
  rw [← Option.some.inj h]
  rfl

/-- The name in a line that opens a term. -/
def nameOf? (line : List Char) : Option String :=
  (heading? line).map fun title => String.ofList (collapse title)

theorem nameOf?_eq_some_iff :
    nameOf? line = some name ↔ LineShape.ofLine? line = some (.heading name) := by
  constructor
  · intro h
    obtain ⟨title, htitle, rfl⟩ := Option.map_eq_some_iff.mp h
    exact LineShape.ofLine?_of_heading? htitle
  · intro h
    unfold LineShape.ofLine? at h
    split at h
    · cases h
    · split at h
      · rename_i title htitle
        rw [nameOf?, htitle, Option.map_some, LineShape.heading.inj (Option.some.inj h)]
      · split at h <;> cases h

theorem nameOf?_eq_none {shape : Option LineShape} (hshape : LineShape.ofLine? line = shape)
    (h : ∀ name, shape ≠ some (.heading name)) : nameOf? line = none :=
  Option.eq_none_iff_forall_ne_some.mpr fun name hname =>
    h name (hshape.symm.trans (nameOf?_eq_some_iff.mp hname))

theorem nameless_iff_of_nameOf? (h : nameOf? line = some name) :
    (name = "" ↔ IsBlankHeading line) ∧ (Name.key name = "" ↔ IsBlankHeading line) := by
  obtain ⟨title, htitle, rfl⟩ := Option.map_eq_some_iff.mp h
  rw [Name.key_eq_empty_iff, String.toList_ofList, words_collapse, String.ofList_eq_empty_iff,
    collapse_eq_nil_iff, words_eq_nil_iff_isBlankHeading htitle]
  exact ⟨Iff.rfl, Iff.rfl⟩

/-- The lines that open a term, with their numbers. -/
def openings (number : Nat) (ls : List (List Char)) : List (Nat × String) :=
  (ls.zipIdx number).filterMap fun entry => (nameOf? entry.1).map fun name => (entry.2, name)

theorem openings_cons (number : Nat) (line : List Char) (ls : List (List Char)) :
    openings number (line :: ls) =
      ((nameOf? line).map fun name => (number, name)).toList ++ openings (number + 1) ls := by
  rw [openings, List.zipIdx_cons, List.filterMap_cons]
  cases nameOf? line with
  | none => rfl
  | some name => rfl

theorem mem_openings_iff : (number, name) ∈ openings 1 ls ↔
    1 ≤ number ∧ ∃ line, ls[number - 1]? = some line ∧ nameOf? line = some name := by
  simp only [openings, List.mem_filterMap, Option.map_eq_some_iff, Prod.mk.injEq, Prod.exists,
    List.mk_mem_zipIdx_iff_le_and_getElem?_sub]
  constructor
  · rintro ⟨line, n, ⟨hn, hline⟩, found, hname, rfl, rfl⟩
    exact ⟨hn, line, hline, hname⟩
  · rintro ⟨hn, line, hline, hname⟩
    exact ⟨line, number, ⟨hn, hline⟩, name, hname, rfl, rfl⟩

def Block.opening (b : Block) : Nat × String :=
  (b.line, b.name)

theorem Outline.openings_of_addLine (h : o.addLine number line = .ok next) :
    next.blocks.map Block.opening =
      o.blocks.map Block.opening ++ ((nameOf? line).map fun name => (number, name)).toList := by
  obtain ⟨closed, current⟩ := o
  unfold addLine at h
  cases hshape : LineShape.ofLine? line with
  | none =>
      rw [hshape] at h
      obtain rfl := Except.ok.inj h
      simp [nameOf?_eq_none hshape fun _ h => by cases h]
  | some shape =>
      rw [hshape] at h
      cases shape with
      | heading name =>
          obtain rfl := Except.ok.inj h
          simp [nameOf?_eq_some_iff.mpr hshape, blocks, Block.opening]
      | bullet body =>
          rw [nameOf?_eq_none hshape fun _ h => by cases h]
          cases current with
          | none =>
              dsimp only at h
              split at h
              · cases h
              · obtain rfl := Except.ok.inj h
                simp
          | some b =>
              obtain rfl := Except.ok.inj h
              simp [blocks, Block.opening]
      | plain text =>
          rw [nameOf?_eq_none hshape fun _ h => by cases h]
          cases current with
          | none =>
              obtain rfl := Except.ok.inj h
              simp
          | some b =>
              obtain rfl := Except.ok.inj h
              simp [blocks, Block.opening]

theorem Outline.openings_of_addLines (h : o.addLines number ls = .ok last) :
    last.blocks.map Block.opening = o.blocks.map Block.opening ++ openings number ls := by
  induction ls generalizing o number with
  | nil =>
      obtain rfl := Except.ok.inj h
      exact (List.append_nil _).symm
  | cons line ls ih =>
      obtain ⟨next, hnext, hrest⟩ := bind_eq_ok_iff.mp h
      rw [ih hrest, openings_of_addLine hnext, openings_cons, List.append_assoc]

/-- The terms of a text are those of its headings, in order. -/
theorem openings_of_terms (h : terms primitives text = .ok ts) :
    ts.map (fun t => (t.line, t.name)) =
      (openings 1 (lines text.toList)).map fun heading => (some (heading.1 : Int), heading.2) := by
  obtain ⟨bs, hbs, hts, -⟩ := terms_eq_ok_iff.mp h
  obtain ⟨last, hlast, rfl⟩ := exists_of_map_eq_ok hbs
  have hopenings := Outline.openings_of_addLines hlast
  rw [map_eq_of_mapM_eq_ok hts (p := fun b => (some (b.line : Int), b.name)) ?_]
  · rw [← List.nil_append (openings _ _), ← List.map_nil (f := Block.opening)]
    change _ = (Outline.empty.blocks.map Block.opening ++ _).map _
    rw [← hopenings, List.map_map]
    rfl
  · intro b t hterm
    obtain ⟨-, -, d, -, -, rfl⟩ := Block.term_eq_ok_iff.mp hterm
    rfl

theorem exists_heading_of_mem (h : terms primitives text = .ok ts) (ht : t ∈ ts) :
    ∃ number : Nat, t.line = some (number : Int) ∧
      ∃ line, (lines text.toList)[number - 1]? = some line ∧ nameOf? line = some t.name := by
  have hmem : (t.line, t.name) ∈ ts.map fun t => (t.line, t.name) :=
    List.mem_map_of_mem (f := fun t : Term => (t.line, t.name)) ht
  rw [openings_of_terms h] at hmem
  obtain ⟨⟨number, name⟩, hheading, heq⟩ := List.mem_map.mp hmem
  obtain ⟨hline, hname⟩ := Prod.mk.inj heq
  obtain ⟨-, line, hget, hnameOf⟩ := mem_openings_iff.mp hheading
  exact ⟨number, hline.symm, line, hget, hname ▸ hnameOf⟩

theorem exists_term_of_nameOf? (h : terms primitives text = .ok ts)
    (hline : line ∈ lines text.toList) (hname : nameOf? line = some name) :
    ∃ t ∈ ts, t.name = name := by
  obtain ⟨index, hget⟩ := List.mem_iff_getElem?.mp hline
  have hheading : (index + 1, name) ∈ openings 1 (lines text.toList) :=
    mem_openings_iff.mpr ⟨by omega, line, hget, hname⟩
  have hmem := List.mem_map_of_mem (f := fun heading : Nat × String =>
    (some (heading.1 : Int), heading.2)) hheading
  rw [← openings_of_terms h] at hmem
  obtain ⟨t, ht, heq⟩ := List.mem_map.mp hmem
  exact ⟨t, ht, (Prod.mk.inj heq).2⟩

end Headings

section Targets

/-- A statement has a word on either side of its verb. -/
theorem Statement.words_ne (h : Statement.ofText? cs = some s) :
    words s.subject.toList ≠ [] ∧ words s.object.toList ≠ [] := by
  obtain ⟨entry, front, phrase, back, hsplit, -, -, hcut, rfl⟩ := Statement.ofText?_eq_some_iff.mp h
  have hback : back ≠ [] := by simpa using hcut.object_ne
  have htokens := areTokens_tokens cs
  rw [hsplit, List.append_assoc] at htokens
  have hsubject := words_tokensText htokens.of_append
  obtain ⟨hbackTokens, -⟩ := htokens.tail_append (by simpa using hcut.subject_ne)
  obtain ⟨hbackTokens, -⟩ := hbackTokens.tail_append (by simpa using hcut.isVerb.ne_nil)
  obtain ⟨t, ts, rfl⟩ := List.exists_cons_of_ne_nil hback
  obtain ⟨rest, hrest, htrimmed, -⟩ := exists_tokensText_eq hbackTokens
  have htrim : trim (tokensText (t :: ts)) = rest := by
    rw [hrest]
    exact htrimmed.trim_gap_append (hbackTokens.gap_blank t List.mem_cons_self)
  rw [String.toList_ofList, String.toList_ofList, hsubject, htrim]
  exact ⟨hcut.subject_ne, ((dropsStop_withoutFullStop htrimmed).isTrimmed htrimmed).words_ne⟩

/-- What the statements refer to has words in its name. -/
structure Declared.NamesAll (d : Declared) : Prop where
  targets : ∀ r ∈ d.relationships, words r.target.toList ≠ []
  identifier : ∀ i ∈ d.identifier, words i.toList ≠ []

theorem Declared.Takes.namesAll (h : d.Takes (.ofNames names) name number s d')
    (hs : words s.object.toList ≠ []) (hd : d.NamesAll) : d'.NamesAll := by
  have hobject : words (Name.display s.object).toList ≠ [] := by rwa [Name.words_display]
  cases h with
  | identifier _ _ _ =>
      refine ⟨hd.targets, fun i hi => ?_⟩
      obtain rfl := Option.some.inj hi
      exact hobject
  | typed type _ htype _ _ =>
      have hkey := Primitives.key_of_spelling? htype
      refine ⟨List.forall_mem_append.mpr ⟨hd.targets, List.forall_mem_singleton.mpr ?_⟩,
        hd.identifier⟩
      rwa [Ne, ← Name.key_eq_empty_iff, hkey, Name.key_eq_empty_iff]
  | related _ _ _ _ =>
      exact ⟨List.forall_mem_append.mpr ⟨hd.targets, List.forall_mem_singleton.mpr hobject⟩,
        hd.identifier⟩

theorem Declared.namesAll_addStatements (hd : d.NamesAll)
    (h : d.addStatements (.ofNames names) name ss = .ok d') : d'.NamesAll := by
  induction ss generalizing d with
  | nil =>
      obtain rfl := Except.ok.inj h
      exact hd
  | cons s ss ih =>
      obtain ⟨line, body⟩ := s
      obtain ⟨next, hnext, hrest⟩ := addStatements_cons_eq_ok_iff.mp h
      obtain ⟨s, hs, -, htakes⟩ := addStatement_eq_ok_iff.mp hnext
      exact ih (htakes.namesAll (Statement.words_ne hs).2 hd) hrest

/-- No statement is about a term without a name. -/
theorem Declared.eq_nothing_of_nameless (hname : Name.key name = "")
    (h : nothing.addStatements primitives name ss = .ok d) : d = nothing := by
  cases ss with
  | nil => exact (Except.ok.inj h).symm
  | cons s ss =>
      obtain ⟨line, body⟩ := s
      obtain ⟨next, hnext, -⟩ := addStatements_cons_eq_ok_iff.mp h
      obtain ⟨s, hs, hkey, -⟩ := addStatement_eq_ok_iff.mp hnext
      rw [hname, Name.key_eq_empty_iff] at hkey
      exact absurd hkey (Statement.words_ne hs).1

end Targets

/-- The line that opens the term is a heading with a blank for a name. -/
def HasBlankHeading (text : String) (t : Term) : Prop :=
  ∃ number : Nat, t.line = some (number : Int) ∧
    ∃ line, (lines text.toList)[number - 1]? = some line ∧ IsBlankHeading line

/-- A term that is read lacks a name, and a key, just if its heading is blank. There is such a term
just if there is such a heading, and it declares nothing. What is referred to always has a name. -/
theorem terms_named (h : terms (.ofNames names) text = .ok ts) :
    (∀ t ∈ ts, (t.name = "" ↔ HasBlankHeading text t) ∧ (t.key = "" ↔ HasBlankHeading text t)) ∧
    ((∃ t ∈ ts, t.name = "") ↔ ∃ line ∈ lines text.toList, IsBlankHeading line) ∧
    (∀ t ∈ ts, t.name = "" →
      t.relationships = [] ∧ t.declaredType = none ∧ t.declaredIdentifier = none) ∧
    ∀ t ∈ ts, (∀ r ∈ t.relationships, r.target ≠ "" ∧ r.targetKey ≠ "") ∧
      ∀ i ∈ t.declaredIdentifier, i ≠ "" ∧ Name.key i ≠ "" := by
  have hnamed : ∀ t ∈ ts, (t.name = "" ↔ HasBlankHeading text t) ∧
      (t.key = "" ↔ HasBlankHeading text t) := by
    intro t ht
    obtain ⟨number, hnumber, line, hline, hname⟩ := exists_heading_of_mem h ht
    have hblank : HasBlankHeading text t ↔ IsBlankHeading line := by
      constructor
      · rintro ⟨number', hnumber', line', hline', hheading⟩
        obtain rfl := Int.natCast_inj.mp (Option.some.inj (hnumber.symm.trans hnumber'))
        rw [hline] at hline'
        rwa [Option.some.inj hline']
      · exact fun hheading => ⟨number, hnumber, line, hline, hheading⟩
    rw [hblank]
    exact nameless_iff_of_nameOf? hname
  have hdeclared : ∀ t ∈ ts, ∃ ss, Declared.nothing.addStatements (.ofNames names) t.name ss =
      .ok t.declared := by
    intro t ht
    obtain ⟨bs, -, hts, -⟩ := terms_eq_ok_iff.mp h
    obtain ⟨b, -, hterm⟩ := exists_of_mem_mapM hts ht
    obtain ⟨-, -, d, hd, -, rfl⟩ := Block.term_eq_ok_iff.mp hterm
    exact ⟨b.statements, hd⟩
  refine ⟨hnamed, ⟨?_, ?_⟩, ?_, ?_⟩
  · rintro ⟨t, ht, hname⟩
    obtain ⟨number, -, line, hline, hblank⟩ := (hnamed t ht).1.mp hname
    exact ⟨line, List.mem_of_getElem? hline, hblank⟩
  · rintro ⟨line, hline, hblank⟩
    refine exists_term_of_nameOf? h hline ?_
    rw [nameOf?, heading?_of_isBlankHeading hblank]
    rfl
  · intro t ht hname
    obtain ⟨ss, hss⟩ := hdeclared t ht
    have hnothing := Declared.eq_nothing_of_nameless (by rw [hname]; rfl) hss
    exact ⟨congrArg Declared.relationships hnothing, congrArg Declared.type hnothing,
      congrArg Declared.identifier hnothing⟩
  · intro t ht
    obtain ⟨ss, hss⟩ := hdeclared t ht
    have hall : t.declared.NamesAll :=
      Declared.namesAll_addStatements ⟨by simp [Declared.nothing], by simp [Declared.nothing]⟩ hss
    have hwords : ∀ {target : String}, words target.toList ≠ [] →
        target ≠ "" ∧ Name.key target ≠ "" := by
      refine fun hne => ⟨?_, mt Name.key_eq_empty_iff.mp hne⟩
      rintro rfl
      exact hne rfl
    exact ⟨fun r hr => hwords (hall.targets r hr), fun i hi => hwords (hall.identifier i hi)⟩

theorem thing_isNamed :
    terms (.ofNames builtInPrimitives) "# Thing\nA thing.\n" =
        .ok [⟨"Thing", "A thing.", none, none, [], some 1⟩] ∧
      ¬∃ line ∈ lines "# Thing\nA thing.\n".toList, IsBlankHeading line := by
  have hterms : terms (.ofNames builtInPrimitives) "# Thing\nA thing.\n" =
      .ok [⟨"Thing", "A thing.", none, none, [], some 1⟩] := rfl
  refine ⟨hterms, fun hblank => ?_⟩
  obtain ⟨t, ht, hname⟩ := (terms_named hterms).2.1.mpr hblank
  obtain rfl := List.mem_singleton.mp ht
  exact absurd hname (by decide)

/-- Two blanks behind the mark open a term without a name. -/
theorem blankThing_isNotNamed :
    ∃ t, terms (.ofNames builtInPrimitives) "#  \nA thing.\n" = .ok [t] ∧
      t.name = "" ∧ t.key = "" :=
  ⟨⟨"", "A thing.", none, none, [], some 1⟩, rfl, rfl, rfl⟩

end Glossary.Dictionary
