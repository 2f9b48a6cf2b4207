import Glossary.CommandLine.Session
import Glossary.Proofs.EmbeddedViews
import Glossary.Proofs.FileWriting
import Glossary.Proofs.Isolation
import Glossary.Proofs.ScriptTexts

/-!
What is left on disk of the artifacts of a dictionary. The files of a term are named by letters and
digits of its name alone, and of terms that these do not tell apart only the last has its files.
-/

namespace Glossary

open Fallible

theorem Name.table_eq_table_iff {x y : String} :
    Name.table x = Name.table y ↔ Name.snakeCase x = Name.snakeCase y :=
  String.append_right_inj _

theorem Name.view_eq_view_iff {x y : String} :
    Name.view x = Name.view y ↔ Name.snakeCase x = Name.snakeCase y :=
  String.append_right_inj _

namespace CommandLine

theorem encode_inj {x y : String} : encode x = encode y ↔ x = y := by
  refine ⟨fun h => ?_, fun h => congrArg encode h⟩
  have hbytes := List.map_injective_iff.mpr (fun _ _ => UInt8.toNat_inj.mp) h
  exact String.toByteArray_inj.mp (ByteArray.ext (Array.toList_inj.mp hbytes))

/-- The path leads down from the directory. -/
def Path.IsBelow (outDir p : Path) : Prop :=
  ∃ steps, p = outDir.inside steps ∧ ".." ∉ steps

namespace FileTree

variable {t t' : FileTree} {outDir p : Path} {files : List (Path × String)} {bytes : List Nat}

def writeEach (t : FileTree) (files : List (Path × String)) : Except PathFault FileTree :=
  files.foldlM (fun t f => t.write f.1 (encode f.2)) t

theorem holds_of_writeEach (h : t.writeEach files = .ok t') (hp : outDir.IsBelow p)
    (hfiles : ∀ f ∈ files, outDir.IsBelow f.1 ∧ f.1 ≠ p) (hheld : t.Holds p bytes) :
    t'.Holds p bytes := by
  induction files generalizing t with
  | nil =>
      obtain rfl := Except.ok.inj h
      exact hheld
  | cons f files ih =>
      obtain ⟨next, hnext, hrest⟩ := foldlM_cons_eq_ok_iff.mp h
      obtain ⟨⟨hbelow, hne⟩, hfiles⟩ := List.forall_mem_cons.mp hfiles
      have hwrites := writes_of_write hnext
      refine ih hrest hfiles (hheld.of_writes hwrites ?_)
      obtain ⟨place, hplace, -⟩ := hwrites.exists_place
      obtain ⟨steps, rfl, hsteps⟩ := hp
      obtain ⟨steps', hpath, hsteps'⟩ := hbelow
      rw [hpath] at hplace hne ⊢
      exact locate_inside_ne hsteps' hsteps (fun heq => hne (congrArg outDir.inside heq)) hplace

/-- What is written last to a path is read there in the end. -/
theorem read_of_writeEach {before after : List (Path × String)} {f : Path × String}
    (h : t.writeEach (before ++ f :: after) = .ok t') (hf : outDir.IsBelow f.1)
    (hafter : ∀ x ∈ after, outDir.IsBelow x.1 ∧ x.1 ≠ f.1) :
    t'.read f.1 = .file (encode f.2) := by
  obtain ⟨reached, -, h⟩ := foldlM_append_eq_ok_iff.mp h
  obtain ⟨next, hnext, hrest⟩ := foldlM_cons_eq_ok_iff.mp h
  obtain ⟨place, hplace, hfile, -⟩ := (writes_of_write hnext).exists_place
  exact read_eq_file_iff.mpr (holds_of_writeEach hrest hf hafter ⟨place, hplace, hfile⟩)

end FileTree

namespace Session

variable {t : FileTree} {next : Session} {outDir : Path} {writable : String → Bool}

theorem runOn_writeAll {files : List (Path × String)}
    (h : ((writeAll next files).runOn t).crash = none) :
    ∃ t', t.writeEach files = .ok t' ∧ (writeAll next files).runOn t = next.runOn t' := by
  induction files generalizing t with
  | nil => exact ⟨t, rfl, rfl⟩
  | cons f files ih =>
      rw [writeAll, runOn] at h ⊢
      cases hwrite : t.write f.1 (encode f.2) with
      | error fault =>
          rw [hwrite] at h
          cases h
      | ok reached =>
          rw [hwrite] at h
          obtain ⟨t', ht', hrun⟩ := ih h
          exact ⟨t', foldlM_cons_eq_ok_iff.mpr ⟨reached, hwrite, ht'⟩, hrun⟩

theorem runOn_writeResults {results : List (String × Artifacts)}
    (h : ((writeResults outDir writable next results).runOn t).crash = none) :
    ∃ t', t.writeEach (results.flatMap fun r => artifactFiles outDir r.2) = .ok t' ∧
      (writeResults outDir writable next results).runOn t = next.runOn t' := by
  induction results generalizing t with
  | nil => exact ⟨t, rfl, rfl⟩
  | cons r results ih =>
      rw [writeResults] at h ⊢
      split at h
      · obtain ⟨reached, hreached, hrun⟩ := runOn_writeAll h
        rw [hrun] at h
        obtain ⟨t', ht', hrest⟩ := ih h
        refine ⟨t', ?_, by rw [if_pos ‹_›, hrun, hrest]⟩
        exact foldlM_append_eq_ok_iff.mpr ⟨reached, hreached, ht'⟩
      · rw [runOn] at h
        split at h
        · cases h
        · cases h

theorem runOn_writeReport {c : CompiledDictionary} {b : Batch TermError Artifacts}
    (h : ((writeReport outDir writable c b).runOn t).crash = none) :
    t.writeEach ((b.results.flatMap fun r => artifactFiles outDir r.2) ++
      [(outDir.inside ["graph.json"], c.graph.document)]) =
        .ok ((writeReport outDir writable c b).runOn t).files := by
  unfold writeReport at h ⊢
  dsimp only at h ⊢
  obtain ⟨reached, hreached, hrun⟩ := runOn_writeResults h
  rw [hrun] at h ⊢
  refine foldlM_append_eq_ok_iff.mpr ⟨reached, hreached, foldlM_cons_eq_ok_iff.mpr ?_⟩
  rw [runOn] at h ⊢
  cases hwrite : reached.write (outDir.inside ["graph.json"]) (encode c.graph.document) with
  | error fault =>
      rw [hwrite] at h
      cases h
  | ok last =>
      refine ⟨last, rfl, ?_⟩
      cases b.ok with
      | true => rfl
      | false => rfl

end Session

section Paths

open Session

variable {outDir : Path} {a a' : Artifacts} {f f' : Path × String}

theorem Path.inside_inj {steps steps' : List String} :
    outDir.inside steps = outDir.inside steps' ↔ steps = steps' := by
  simp [Path.inside]

/-- The files of a term stand in directories of their own, under a name with an ending. -/
theorem exists_of_mem_artifactFiles (hf : f ∈ artifactFiles outDir a) :
    ∃ directory file, f.1 = outDir.inside [directory, file ++ ".sql"] ∧ directory ≠ ".." := by
  simp only [artifactFiles, tableFile, List.mem_cons, List.not_mem_nil, or_false] at hf
  rcases hf with rfl | rfl | rfl | rfl
  · exact ⟨_, _, rfl, by decide⟩
  · exact ⟨_, _, rfl, by decide⟩
  · exact ⟨"tests", "physical_" ++ Name.snakeCase a.term, by rw [String.append_assoc], by decide⟩
  · exact ⟨"tests", "logical_" ++ Name.snakeCase a.term, by rw [String.append_assoc], by decide⟩

theorem isBelow_of_mem_artifactFiles (hf : f ∈ artifactFiles outDir a) : outDir.IsBelow f.1 := by
  obtain ⟨directory, file, hpath, hdirectory⟩ := exists_of_mem_artifactFiles hf
  refine ⟨_, hpath, ?_⟩
  have hfile : file ++ ".sql" ≠ ".." := by
    intro h
    have hlength := congrArg (fun text => text.toList.length) h
    simp at hlength
  simp [Ne.symm hdirectory, Ne.symm hfile]

theorem nodup_artifactFiles (outDir : Path) (a : Artifacts) :
    ((artifactFiles outDir a).map Prod.fst).Nodup := by
  simp [artifactFiles, tableFile, Path.inside_inj]

theorem disjoint_artifactFiles_iff :
    List.Disjoint ((artifactFiles outDir a).map Prod.fst) ((artifactFiles outDir a').map Prod.fst) ↔
      Name.snakeCase a.term ≠ Name.snakeCase a'.term := by
  have hlayer : ∀ x y : String, "physical_" ++ x ≠ "logical_" ++ y := by
    intro x y h
    simpa using congrArg String.toList h
  simp [artifactFiles, tableFile, Path.inside_inj, hlayer, Ne.symm (hlayer _ _), eq_comm]

end Paths

section Splits

variable {α β : Type} {as : List α}

theorem exists_last {P : α → Prop} (h : ∃ a ∈ as, P a) :
    ∃ before a after, as = before ++ a :: after ∧ P a ∧ ∀ b ∈ after, ¬P b := by
  classical
  induction as with
  | nil => simp at h
  | cons a as ih =>
      by_cases hlater : ∃ b ∈ as, P b
      · obtain ⟨before, b, after, rfl, hb, hafter⟩ := ih hlater
        exact ⟨a :: before, b, after, rfl, hb, hafter⟩
      · obtain ⟨b, hb, hP⟩ := h
        rcases List.mem_cons.mp hb with rfl | hb
        · exact ⟨[], b, as, rfl, hP, fun x hx hxP => hlater ⟨x, hx, hxP⟩⟩
        · exact absurd ⟨b, hb, hP⟩ hlater

theorem nodup_map_iff_split {f : α → β} : (as.map f).Nodup ↔
    ∀ before a after, as = before ++ a :: after → ∀ b ∈ after, f b ≠ f a := by
  constructor
  · rintro h before a after rfl b hb heq
    rw [List.map_append, List.map_cons] at h
    have hcons := (List.nodup_append.mp h).2.1
    exact (List.nodup_cons.mp hcons).1 (List.mem_map.mpr ⟨b, hb, heq⟩)
  · intro h
    induction as with
    | nil => exact List.nodup_nil
    | cons a as ih =>
        refine List.nodup_cons.mpr ⟨?_, ih fun before b after hsplit => ?_⟩
        · intro hmem
          obtain ⟨b, hb, heq⟩ := List.mem_map.mp hmem
          exact h [] a as rfl b hb heq
        · exact h (a :: before) b after (congrArg (a :: ·) hsplit)

end Splits

section Report

open Session

variable {c : CompiledDictionary} {settings : Settings} {text name : String} {outDir : Path}
  {writable : String → Bool} {t : FileTree} {b : Batch TermError Artifacts} {a : Artifacts}

/-- The files of the term hold its own four texts. -/
def FileTree.Finds (t : FileTree) (outDir : Path) (a : Artifacts) : Prop :=
  ∀ f ∈ artifactFiles outDir a, t.read f.1 = .file (encode f.2)

/-- What is on disk of the results: where names share their letters and digits, only the last of
them has its files, and all of them share one table and one view. -/
structure KeepsResults (c : CompiledDictionary) (b : Batch TermError Artifacts) (outDir : Path)
    (t : FileTree) : Prop where
  finds_iff : ∀ before r after, b.results = before ++ r :: after →
    (t.Finds outDir r.2 ↔ ∀ r' ∈ after, Name.snakeCase r'.1 ≠ Name.snakeCase r.1)
  all_found_iff : (∀ r ∈ b.results, t.Finds outDir r.2) ↔
    (b.results.map fun r => Name.snakeCase r.1).Nodup
  paths_nodup_iff : ((b.results.flatMap fun r => artifactFiles outDir r.2).map Prod.fst).Nodup ↔
    (b.results.map fun r => Name.snakeCase r.1).Nodup
  tables_shared_iff : ∀ name ∈ c.termNames, ∀ name' ∈ c.termNames, ∀ s s',
    (c.resolver.requestTable name .empty).1 = .ok s →
    (c.resolver.requestTable name' .empty).1 = .ok s' →
      (s.table = s'.table ↔ Name.snakeCase name = Name.snakeCase name')
  views_shared_iff : ∀ name ∈ c.termNames, ∀ name' ∈ c.termNames, ∀ s s',
    (c.resolver.requestView name .empty).1 = .ok s →
    (c.resolver.requestView name' .empty).1 = .ok s' →
      (s.view = s'.view ↔ Name.snakeCase name = Name.snakeCase name')

theorem exists_script_of_generatesAlone (hc : compile settings text = .ok c)
    (hname : name ∈ c.termNames) (h : c.GeneratesAlone name a) :
    ∃ script : Sql.Script, script.render = a.tableTests ∧ script.object = Name.table name ∧
      script.layer = .physical ∧ script.term = name := by
  obtain ⟨key, hkey, hlabel⟩ := CompiledDictionary.exists_key_of_mem_termNames hc hname
  obtain ⟨s, hs, hscript⟩ := (CompiledDictionary.test_eq_ok_iff hkey).mp h.test_table
  obtain ⟨table, htable, rfl⟩ := exists_of_map_eq_ok hs
  obtain ⟨script, hmade, hrender⟩ := exists_of_map_eq_ok hscript
  have hisTable := Graph.isTable_of_table_eq_ok htable
  obtain ⟨-, -, hmade⟩ := bind_eq_ok_iff.mp hmade
  obtain ⟨-, -, hmade⟩ := bind_eq_ok_iff.mp hmade
  obtain ⟨hobject, hlayer, hterm⟩ := Sql.Script.header_eq hmade
  rw [hisTable.label_eq, hlabel] at hterm
  rw [hisTable.table_eq, hlabel] at hobject
  exact ⟨script, hrender, hobject, hlayer, hterm⟩

/-- Terms that find the same script in one file are one term. -/
theorem name_eq_of_tableTests_eq {name' : String} {a' : Artifacts}
    (hc : compile settings text = .ok c) (hname : name ∈ c.termNames) (h : c.GeneratesAlone name a)
    (hname' : name' ∈ c.termNames) (h' : c.GeneratesAlone name' a')
    (hsnake : Name.snakeCase name = Name.snakeCase name') (htests : a.tableTests = a'.tableTests) :
    name = name' := by
  obtain ⟨script, hrender, hobject, hlayer, rfl⟩ := exists_script_of_generatesAlone hc hname h
  obtain ⟨script', hrender', hobject', hlayer', rfl⟩ := exists_script_of_generatesAlone hc hname' h'
  refine Sql.Script.term_eq_of_render_eq ?_ (hlayer.trans hlayer'.symm)
    (isOneLine_of_mem_termNames hc hname) (isOneLine_of_mem_termNames hc hname') ?_
  · rw [hobject, hobject', Name.table_eq_table_iff, hsnake]
  · rw [hrender, hrender', htests]

theorem table_eq_of_requestTable (hc : compile settings text = .ok c) (hname : name ∈ c.termNames)
    {s : TableSchema} (hs : (c.resolver.requestTable name .empty).1 = .ok s) :
    s.table = Name.table name := by
  obtain ⟨key, hkey, hlabel⟩ := CompiledDictionary.exists_key_of_mem_termNames hc hname
  have htable := Resolver.eq_ok_of_ask (fun key => Resolution.yields_table _ _ key) hkey
    Memory.faithful_empty hs
  rw [(Graph.isTable_of_table_eq_ok htable).table_eq]
  exact congrArg Name.table hlabel

theorem view_eq_of_requestView (hc : compile settings text = .ok c) (hname : name ∈ c.termNames)
    {s : ViewSchema} (hs : (c.resolver.requestView name .empty).1 = .ok s) :
    s.view = Name.view name := by
  obtain ⟨key, hkey, hlabel⟩ := CompiledDictionary.exists_key_of_mem_termNames hc hname
  have hview := Resolver.eq_ok_of_ask (fun key => Resolution.yields_view _ _ key) hkey
    Memory.faithful_empty hs
  rw [Graph.view_name_eq hview]
  exact congrArg Name.view hlabel

/-- The files of a term stay as they were written when no later term is written to them. -/
theorem finds_of_writeEach {before after : List (String × Artifacts)} {r : String × Artifacts}
    {t' : FileTree} {document : String}
    (h : t.writeEach (((before ++ r :: after).flatMap fun r => artifactFiles outDir r.2) ++
      [(outDir.inside ["graph.json"], document)]) = .ok t')
    (hafter : ∀ r' ∈ after, Name.snakeCase r'.2.term ≠ Name.snakeCase r.2.term) :
    t'.Finds outDir r.2 := by
  intro f hf
  obtain ⟨first, rest, hsplit⟩ := List.append_of_mem hf
  have hnodup := nodup_artifactFiles outDir r.2
  rw [hsplit, List.map_append, List.map_cons] at hnodup
  have hwritten : t.writeEach (((before.flatMap fun r => artifactFiles outDir r.2) ++ first) ++
      f :: (rest ++ ((after.flatMap fun r => artifactFiles outDir r.2) ++
        [(outDir.inside ["graph.json"], document)]))) = .ok t' := by
    simpa [hsplit] using h
  refine FileTree.read_of_writeEach hwritten (isBelow_of_mem_artifactFiles hf) fun x hx => ?_
  rcases List.mem_append.mp hx with hx | hx
  · have hmem : x ∈ artifactFiles outDir r.2 := by simp [hsplit, hx]
    refine ⟨isBelow_of_mem_artifactFiles hmem, fun heq => ?_⟩
    exact (List.nodup_cons.mp (List.nodup_append.mp hnodup).2.1).1
      (List.mem_map.mpr ⟨x, hx, heq⟩)
  · rcases List.mem_append.mp hx with hx | hx
    · obtain ⟨r', hr', hx⟩ := List.mem_flatMap.mp hx
      refine ⟨isBelow_of_mem_artifactFiles hx, fun heq => ?_⟩
      have hpath : x.1 ∈ (artifactFiles outDir r.2).map Prod.fst := heq ▸ List.mem_map_of_mem hf
      exact disjoint_artifactFiles_iff.mpr (hafter r' hr') (List.mem_map_of_mem hx) hpath
    · rw [List.mem_singleton.mp hx]
      obtain ⟨directory, file, hpath, -⟩ := exists_of_mem_artifactFiles hf
      refine ⟨⟨_, rfl, by decide⟩, ?_⟩
      rw [hpath]
      simp [Path.inside_inj]

/-- Of two terms whose files are the same, one does not find its texts. -/
theorem name_eq_of_finds {name' : String} {a' : Artifacts} (hc : compile settings text = .ok c)
    (hname : name ∈ c.termNames) (h : c.GeneratesAlone name a) (hname' : name' ∈ c.termNames)
    (h' : c.GeneratesAlone name' a') (hsnake : Name.snakeCase name = Name.snakeCase name')
    (hfound : t.Finds outDir a) (hfound' : t.Finds outDir a') : name = name' := by
  have hread := hfound
    (outDir.inside ["tests", "physical_" ++ (Name.snakeCase a.term ++ ".sql")], a.tableTests)
    (by simp [artifactFiles])
  have hread' := hfound'
    (outDir.inside ["tests", "physical_" ++ (Name.snakeCase a'.term ++ ".sql")], a'.tableTests)
    (by simp [artifactFiles])
  rw [h.term_eq] at hread
  rw [h'.term_eq, ← hsnake, hread] at hread'
  exact name_eq_of_tableTests_eq hc hname h hname' h' hsnake
    (encode_inj.mp (Place.file.inj hread'))

theorem nodup_paths_iff {results : List (String × Artifacts)}
    (h : ∀ r ∈ results, r.2.term = r.1) :
    ((results.flatMap fun r => artifactFiles outDir r.2).map Prod.fst).Nodup ↔
      (results.map fun r => Name.snakeCase r.1).Nodup := by
  rw [List.map_flatMap, List.nodup_flatMap]
  unfold List.Nodup
  rw [List.pairwise_map]
  constructor
  · rintro ⟨-, hdisjoint⟩
    refine hdisjoint.imp_of_mem fun {r r'} hr hr' hpaths => ?_
    rw [← h r hr, ← h r' hr']
    exact disjoint_artifactFiles_iff.mp hpaths
  · intro hnames
    refine ⟨fun r _ => nodup_artifactFiles outDir r.2, ?_⟩
    refine hnames.imp_of_mem fun {r r'} hr hr' hne => ?_
    rw [← h r hr, ← h r' hr'] at hne
    exact disjoint_artifactFiles_iff.mpr hne

/-- A term finds its files when no later one is written to them, and only then: the last that is
written to them finds its own script there. -/
theorem finds_iff_of_writeEach {before after : List (String × Artifacts)} {r : String × Artifacts}
    {t' : FileTree} {document : String} (hc : compile settings text = .ok c)
    (hsplits : c.Splits b) (hresults : b.results = before ++ r :: after)
    (h : t.writeEach ((b.results.flatMap fun r => artifactFiles outDir r.2) ++
      [(outDir.inside ["graph.json"], document)]) = .ok t') :
    t'.Finds outDir r.2 ↔ ∀ r' ∈ after, Name.snakeCase r'.1 ≠ Name.snakeCase r.1 := by
  have hresult : ∀ r ∈ b.results, r.1 ∈ c.termNames ∧ c.GeneratesAlone r.1 r.2 :=
    fun r hr => hsplits.of_mem_results hr
  have hfinds : ∀ {before after r}, b.results = before ++ r :: after →
      (∀ r' ∈ after, Name.snakeCase r'.1 ≠ Name.snakeCase r.1) → t'.Finds outDir r.2 := by
    intro before after r hresults hafter
    rw [hresults] at h hresult
    refine finds_of_writeEach h fun r' hr' => ?_
    rw [(hresult r' (by simp [hr'])).2.term_eq, (hresult r (by simp)).2.term_eq]
    exact hafter r' hr'
  refine ⟨fun hfound => ?_, hfinds hresults⟩
  by_contra hshared
  push Not at hshared
  obtain ⟨middle, r', later, rfl, hsnake, hlater⟩ := exists_last hshared
  have hresults' : b.results = (before ++ r :: middle) ++ r' :: later := by simp [hresults]
  have hfound' := hfinds hresults' (by simpa [hsnake] using hlater)
  obtain ⟨hname, halone⟩ := hresult r (by simp [hresults])
  obtain ⟨hname', halone'⟩ := hresult r' (by simp [hresults])
  have hsame := name_eq_of_finds hc hname halone hname' halone' hsnake.symm hfound hfound'
  have hnodup := hsplits.results_sublist.nodup hsplits.names_nodup
  rw [hresults] at hnodup
  simp [hsame, List.nodup_append] at hnodup

/-- The report of a dictionary is on disk as far as the names of its terms can be told apart by
their letters and digits. -/
theorem writeReport_keepsResults {workers : Option Int} {memory : Memory}
    (hc : compile settings text = .ok c) (hmemory : memory.Faithful c.graph c.resolver.options)
    (hb : (c.allArtifacts workers memory).1 = .ok b)
    (hcrash : ((writeReport outDir writable c b).runOn t).crash = none) :
    KeepsResults c b outDir ((writeReport outDir writable c b).runOn t).files := by
  have hsplits : c.Splits b := CompiledDictionary.splits_of_allArtifacts hc hmemory hb
  have hwritten := runOn_writeReport hcrash
  constructor
  case finds_iff =>
    intro before r after hresults
    exact finds_iff_of_writeEach hc hsplits hresults hwritten
  case all_found_iff =>
    rw [nodup_map_iff_split]
    constructor
    · intro hall before r after hresults
      exact (finds_iff_of_writeEach hc hsplits hresults hwritten).mp (hall r (by simp [hresults]))
    · intro hlast r hr
      obtain ⟨before, after, hresults⟩ := List.append_of_mem hr
      exact (finds_iff_of_writeEach hc hsplits hresults hwritten).mpr
        (hlast before r after hresults)
  case paths_nodup_iff =>
    exact nodup_paths_iff fun r hr => (hsplits.of_mem_results hr).2.term_eq
  case tables_shared_iff =>
    intro name hname name' hname' s s' hs hs'
    rw [table_eq_of_requestTable hc hname hs, table_eq_of_requestTable hc hname' hs',
      Name.table_eq_table_iff]
  case views_shared_iff =>
    intro name hname name' hname' s s' hs hs'
    rw [view_eq_of_requestView hc hname hs, view_eq_of_requestView hc hname' hs',
      Name.view_eq_view_iff]

/-- The outcome of writing a report where nothing has been written yet. -/
def written (c : CompiledDictionary) (b : Batch TermError Artifacts) : Outcome :=
  (writeReport (.ofText "output") (fun _ => true) c b).runOn (.ofFiles [])

def library : CompiledDictionary :=
  Settings.standard.compiled (.ofTerms (.ofNames Settings.standard.primitives) libraryTerms)

theorem library_keepsResults :
    ∃ c b, compile .standard libraryText = .ok c ∧ (c.allArtifacts none .empty).1 = .ok b ∧
      (written c b).crash = none ∧ b.results.map Prod.fst = ["Author", "Book"] ∧
      ∀ r ∈ b.results, (written c b).files.Finds (.ofText "output") r.2 := by
  have hc : compile .standard libraryText = .ok library :=
    CompiledDictionary.compile_libraryText .standard rfl
  have hb : (library.allArtifacts none .empty).1 = .ok library.termwise :=
    CompiledDictionary.allArtifacts_eq none hc Memory.faithful_empty
  have hcrash : (written library library.termwise).crash = none := by decide +kernel
  have hkept := writeReport_keepsResults hc Memory.faithful_empty hb hcrash
  refine ⟨_, _, hc, hb, hcrash, ?_, hkept.all_found_iff.mpr ?_⟩
  · decide +kernel
  · decide +kernel

/-- Two names that differ in a hyphen only. -/
def twinText : String :=
  "# A-B\nA first thing.\n\n# A B\nA second thing.\n"

def twinTerms : List Term := [
  ⟨"A-B", "A first thing.", none, none, [], some 1⟩,
  ⟨"A B", "A second thing.", none, none, [], some 4⟩]

def twins : CompiledDictionary :=
  Settings.standard.compiled (.ofTerms (.ofNames Settings.standard.primitives) twinTerms)

theorem compile_twinText : compile .standard twinText = .ok twins := by
  have hterms : (Dictionary.terms (.ofNames Settings.standard.primitives) twinText).toOption =
      some twinTerms := by
    decide +kernel
  have hbuild : Graph.build (.ofNames Settings.standard.primitives) twinTerms =
      .ok (.ofTerms (.ofNames Settings.standard.primitives) twinTerms) := rfl
  exact compile_eq_ok_iff.mpr ⟨twinTerms, _, eq_ok_of_toOption_eq_some hterms, hbuild, rfl⟩

theorem twins_loseFiles :
    ∃ c b, compile .standard twinText = .ok c ∧ (c.allArtifacts none .empty).1 = .ok b ∧
      (written c b).crash = none ∧ b.results.map Prod.fst = ["A-B", "A B"] ∧
      ¬∀ r ∈ b.results, (written c b).files.Finds (.ofText "output") r.2 := by
  have hc := compile_twinText
  have hb : (twins.allArtifacts none .empty).1 = .ok twins.termwise :=
    CompiledDictionary.allArtifacts_eq none hc Memory.faithful_empty
  have hresults : twins.termwise.results.map Prod.fst = ["A-B", "A B"] := by decide +kernel
  refine ⟨_, _, hc, hb, ?_, hresults, fun hall => ?_⟩
  · decide +kernel
  · have hexists : ∀ name ∈ ["A-B", "A B"], ∃ a, (name, a) ∈ twins.termwise.results := by
      intro name hname
      rw [← hresults] at hname
      obtain ⟨r, hr, rfl⟩ := List.mem_map.mp hname
      exact ⟨r.2, hr⟩
    obtain ⟨a, ha⟩ := hexists "A-B" (by simp)
    obtain ⟨a', ha'⟩ := hexists "A B" (by simp)
    have hsplits := CompiledDictionary.splits_termwise hc
    obtain ⟨hname, halone⟩ := hsplits.of_mem_results ha
    obtain ⟨hname', halone'⟩ := hsplits.of_mem_results ha'
    have hsnake : Name.snakeCase "A-B" = Name.snakeCase "A B" := by decide +kernel
    have hfound := hall ("A-B", a) ha
    have hfound' := hall ("A B", a') ha'
    have hsame : "A-B" = "A B" :=
      name_eq_of_finds hc hname halone hname' halone' hsnake hfound hfound'
    exact absurd hsame (by decide)

end Report

end CommandLine

end Glossary
