import Glossary.Proofs.Generation
import Glossary.Proofs.Independence
import Glossary.Proofs.Pool
import Glossary.Proofs.Resolvability
import Glossary.Proofs.Strictness

/-!
The artifacts of all terms are made term by term, and a term that has none leaves the others as they
are. The batch splits the terms of the dictionary, whichever way the workers of a pool take turns.
-/

namespace Glossary

open Fallible

/-- The errors that a user is told; resolution always ends, so that the other one never comes. -/
def ResolutionError.IsReported : ResolutionError → Prop
  | unfinished _ => False
  | _ => True

def TermError.IsReported : TermError → Prop
  | request (.resolution error) => error.IsReported
  | generation error => error.IsReported
  | _ => False

namespace Graph

variable {g : Graph} {o : ResolutionOptions} {key : Key} {e : ResolutionError}

theorem table_reported (h : g.table o key = .error e) : e.IsReported := by
  refine error_of_lenient (P := ResolutionError.IsReported) (fun o => g.table o key)
    (fun type => table_does g type key) (fun _ _ _ _ => trivial) (fun type e he => ?_) h
  obtain ⟨-, cycle, rfl⟩ := table_eq_error rfl he
  trivial

theorem view_reported (h : g.view o key = .error e) : e.IsReported := by
  refine error_of_lenient (P := ResolutionError.IsReported) (fun o => g.view o key)
    (fun type => view_does g type key) (fun _ _ _ _ => trivial) (fun type e he => ?_) h
  obtain ⟨term, path, rfl | rfl⟩ := (viewWithin_eq_error rfl he StandBelow.nil
    (by simp [stepBound])).1
  · trivial
  · trivial

theorem keyOf_of_mem {primitives : Primitives} {terms : List Term}
    (h : Accepts primitives terms) {t : Term} (ht : t ∈ terms) :
    (ofTerms primitives terms).keyOf t.name = .ok t.key ∧
      (ofTerms primitives terms).label t.key = t.name := by
  have hentry : Graph.entry? (ofTerms primitives terms) t.key =
      some (Entry.ofTerm primitives t) := by
    rw [entry?_ofTerms, (find?_key_eq_some_iff h.nodup).mpr ⟨ht, rfl⟩]
    rfl
  refine ⟨keyOf_eq_ok_iff.mpr ⟨?_, rfl⟩, ?_⟩
  · exact Option.isSome_iff_exists.mpr ⟨_, hentry⟩
  · simp [label, label?, hentry, Entry.ofTerm]

end Graph

namespace Batch

variable {ε α : Type} {alone : String → Except ε α} {names : List String}

/-- The names that have an answer, and those that have none. -/
def split (alone : String → Except ε α) (names : List String) : Batch ε α where
  results := names.filterMap fun name =>
    match alone name with
    | .ok value => some (name, value)
    | .error _ => none
  failures := names.filterMap fun name =>
    match alone name with
    | .ok _ => none
    | .error error => some (name, error)

theorem foldl_addOutcome {b : Batch ε α} (h : (b.results.map Prod.fst ++ names).Nodup) :
    names.foldl (fun b name => b.addOutcome name (alone name)) b =
      ⟨b.results ++ (split alone names).results, b.failures ++ (split alone names).failures⟩ := by
  induction names generalizing b with
  | nil => simp [split]
  | cons name names ih =>
      rw [List.foldl_cons]
      cases houtcome : alone name with
      | ok value =>
          have hfresh : b.results.lookup name = none := by
            rw [List.lookup_eq_none_iff]
            intro r hr
            have hne := (List.nodup_append.mp h).2.2 r.1 (List.mem_map_of_mem hr) name
              List.mem_cons_self
            simpa using fun heq => hne heq.symm
          have hadd : b.addOutcome name (.ok value) =
              ⟨b.results ++ [(name, value)], b.failures⟩ := by
            simp [addOutcome, addResult, hfresh]
          rw [hadd, ih (by simpa using h)]
          simp [split, houtcome]
      | error error =>
          have hadd : b.addOutcome name (.error error : Except ε α) =
              ⟨b.results, b.failures ++ [(name, error)]⟩ := rfl
          have hnodup : (b.results.map Prod.fst ++ names).Nodup :=
            h.sublist (List.Sublist.append_left (List.sublist_cons_self name names) _)
          rw [hadd, ih (b := ⟨b.results, b.failures ++ [(name, error)]⟩) hnodup]
          simp [split, houtcome]

theorem gather_map_of_nodup (h : names.Nodup) :
    gather (names.map fun name => (name, alone name)) = split alone names := by
  rw [gather_map, foldl_addOutcome (by simpa [empty] using h)]
  simp [empty]

theorem mem_results_split_iff {name : String} {value : α} :
    (name, value) ∈ (split alone names).results ↔ name ∈ names ∧ alone name = .ok value := by
  simp only [split, List.mem_filterMap]
  constructor
  · rintro ⟨name', hname, h⟩
    cases houtcome : alone name' with
    | ok value' =>
        obtain ⟨rfl, rfl⟩ : name' = name ∧ value' = value := by simpa [houtcome] using h
        exact ⟨hname, houtcome⟩
    | error error => simp [houtcome] at h
  · rintro ⟨hname, houtcome⟩
    exact ⟨name, hname, by rw [houtcome]⟩

theorem mem_failures_split_iff {name : String} {error : ε} :
    (name, error) ∈ (split alone names).failures ↔ name ∈ names ∧ alone name = .error error := by
  simp only [split, List.mem_filterMap]
  constructor
  · rintro ⟨name', hname, h⟩
    cases houtcome : alone name' with
    | ok value => simp [houtcome] at h
    | error error' =>
        obtain ⟨rfl, rfl⟩ : name' = name ∧ error' = error := by simpa [houtcome] using h
        exact ⟨hname, houtcome⟩
  · rintro ⟨hname, houtcome⟩
    exact ⟨name, hname, by rw [houtcome]⟩

theorem xor_mem_split {name : String} (hname : name ∈ names) :
    Xor (name ∈ (split alone names).results.map Prod.fst)
      (name ∈ (split alone names).failures.map Prod.fst) := by
  simp only [List.mem_map, Prod.exists, exists_and_right, exists_eq_right, mem_results_split_iff,
    mem_failures_split_iff, hname, true_and]
  cases alone name with
  | ok value => simp [Xor]
  | error error => simp [Xor]

theorem map_results_sublist : ((split alone names).results.map Prod.fst).Sublist names := by
  induction names with
  | nil => exact List.Sublist.refl _
  | cons name names ih =>
      cases houtcome : alone name with
      | ok value => simpa [split, houtcome] using ih
      | error error => simpa [split, houtcome] using ih.cons name

theorem map_failures_sublist : ((split alone names).failures.map Prod.fst).Sublist names := by
  induction names with
  | nil => exact List.Sublist.refl _
  | cons name names ih =>
      cases houtcome : alone name with
      | ok value => simpa [split, houtcome] using ih.cons name
      | error error => simpa [split, houtcome] using ih

end Batch

namespace CompiledDictionary

variable {c : CompiledDictionary} {settings : Settings} {text name : String} {memory : Memory}
  {key : Key} {layer : Layer} {a : Artifacts}

/-- The steps of `artifacts`. -/
def work (c : CompiledDictionary) (name : String) : Resolution (Except TermError Artifacts) :=
  (c.resolver.asking (Resolution.table c.graph c.resolver.options) name).bind fun
    | .error error => .done (.error (.request error))
    | .ok table =>
        (c.resolver.asking (Resolution.view c.graph c.resolver.options) name).bind fun
          | .error error => .done (.error (.request error))
          | .ok view => .done ((artifactsOf c.generator table view).mapError .generation)

theorem run_work (c : CompiledDictionary) (name : String) (memory : Memory) :
    (c.work name).run memory =
      (.ok (c.artifacts name memory).1, (c.artifacts name memory).2) := by
  unfold work artifacts Resolver.requestTable Resolver.requestView
  rw [Resolution.run_bind (Resolver.run_asking _ name memory)]
  unfold graph
  obtain ⟨answer, after⟩ := c.resolver.ask _ name memory
  cases answer with
  | error error => rfl
  | ok table =>
      dsimp only
      rw [Resolution.run_bind (Resolver.run_asking _ name after)]
      obtain ⟨answer, last⟩ := c.resolver.ask _ name after
      cases answer with
      | error error => rfl
      | ok view => rfl

theorem yields_work (c : CompiledDictionary) (name : String) :
    (c.work name).Yields c.graph c.resolver.options (.ok (c.artifacts name .empty).1) := by
  have hexists : ∃ outcome, (c.work name).Yields c.graph c.resolver.options (.ok outcome) := by
    obtain ⟨table, htable⟩ := c.resolver.exists_yields_asking
      (fun key => Resolution.yields_table c.graph c.resolver.options key) name
    obtain ⟨view, hview⟩ := c.resolver.exists_yields_asking
      (fun key => Resolution.yields_view c.graph c.resolver.options key) name
    refine htable.exists_bind fun answer => ?_
    cases answer with
    | error error => exact ⟨_, .done _⟩
    | ok table =>
        refine hview.exists_bind fun answer => ?_
        cases answer with
        | error error => exact ⟨_, .done _⟩
        | ok view => exact ⟨_, .done _⟩
  obtain ⟨outcome, hyields⟩ := hexists
  have hrun := (hyields.run Memory.faithful_empty).1
  rw [run_work] at hrun
  obtain rfl := Except.ok.inj hrun
  exact hyields

/-- The answers to the terms, each for itself. -/
def termwise (c : CompiledDictionary) : Batch TermError Artifacts :=
  Batch.split (fun name => (c.artifacts name .empty).1) c.termNames

/-- A term has these artifacts when each of them is made for the term alone. -/
structure GeneratesAlone (c : CompiledDictionary) (name : String) (a : Artifacts) : Prop where
  term_eq : a.term = name
  create_table : (c.create .physical name .empty).1 = .ok a.tableStatement
  create_view : (c.create .logical name .empty).1 = .ok a.viewStatement
  test_table : (c.test .physical name .empty).1 = .ok a.tableTests
  test_view : (c.test .logical name .empty).1 = .ok a.viewTests

/-- The batch splits the terms of the dictionary: each has its artifacts, when it has all of them
alone, or else the first error on the way to them. -/
structure Splits (c : CompiledDictionary) (b : Batch TermError Artifacts) : Prop where
  names_nodup : c.termNames.Nodup
  results_sublist : (b.results.map Prod.fst).Sublist c.termNames
  failures_sublist : (b.failures.map Prod.fst).Sublist c.termNames
  mem_results_or_failures : ∀ name ∈ c.termNames,
    Xor (name ∈ b.results.map Prod.fst) (name ∈ b.failures.map Prod.fst)
  mem_results_iff : ∀ name a,
    (name, a) ∈ b.results ↔ name ∈ c.termNames ∧ c.GeneratesAlone name a
  mem_failures_iff : ∀ name e,
    (name, e) ∈ b.failures ↔ name ∈ c.termNames ∧ (c.artifacts name .empty).1 = .error e
  failures_reported : ∀ f ∈ b.failures, f.2.IsReported

theorem Splits.of_mem_results {b : Batch TermError Artifacts} (h : c.Splits b)
    {r : String × Artifacts} (hr : r ∈ b.results) :
    r.1 ∈ c.termNames ∧ c.GeneratesAlone r.1 r.2 :=
  (h.mem_results_iff r.1 r.2).mp hr

section Compiled

theorem nodup_termNames (hc : compile settings text = .ok c) : c.termNames.Nodup := by
  obtain ⟨terms, g, -, hg, rfl⟩ := compile_eq_ok_iff.mp hc
  obtain ⟨rfl, haccepts⟩ := Graph.build_eq_ok_iff.mp hg
  have hkeys : ((terms.map Term.name).map Name.key).Nodup := by
    rw [List.map_map]
    exact haccepts.nodup
  unfold termNames
  show ((Graph.ofTerms _ terms).terms.map Term.name).Nodup
  rw [Graph.terms_ofTerms]
  exact List.Nodup.of_map _ hkeys

theorem exists_key_of_mem_termNames (hc : compile settings text = .ok c)
    (hname : name ∈ c.termNames) :
    ∃ key, c.graph.keyOf name = .ok key ∧ c.graph.label key = name := by
  obtain ⟨terms, g, -, hg, rfl⟩ := compile_eq_ok_iff.mp hc
  obtain ⟨rfl, haccepts⟩ := Graph.build_eq_ok_iff.mp hg
  change name ∈ (Graph.ofTerms _ terms).terms.map Term.name at hname
  rw [Graph.terms_ofTerms] at hname
  obtain ⟨t, ht, rfl⟩ := List.mem_map.mp hname
  exact ⟨t.key, Graph.keyOf_of_mem haccepts ht⟩

theorem ranges_eq_builtIn (hc : compile settings text = .ok c) :
    c.generator.ranges = .builtIn := by
  obtain ⟨terms, g, -, -, rfl⟩ := compile_eq_ok_iff.mp hc
  rfl

end Compiled

theorem artifacts_faithful (name : String)
    (hmemory : memory.Faithful c.graph c.resolver.options) :
    (c.artifacts name memory).1 = (c.artifacts name .empty).1 ∧
      (c.artifacts name memory).2.Faithful c.graph c.resolver.options := by
  have hrun := (c.yields_work name).run hmemory
  rw [run_work] at hrun
  exact ⟨Except.ok.inj hrun.1, hrun.2⟩

theorem artifacts_eq_of_key (hkey : c.graph.keyOf name = .ok key) :
    (c.artifacts name .empty).1 = (do
      let table ← ((c.graph.table c.resolver.options key).mapError
        RequestError.resolution).mapError TermError.request
      let view ← ((c.graph.view c.resolver.options key).mapError
        RequestError.resolution).mapError TermError.request
      (artifactsOf c.generator table view).mapError TermError.generation) := by
  have hyields := fun key => Resolution.yields_table c.resolver.graph c.resolver.options key
  have hyields' := fun key => Resolution.yields_view c.resolver.graph c.resolver.options key
  obtain ⟨htable, hafter⟩ := Resolver.ask_eq hyields name Memory.faithful_empty
  have hview := (Resolver.ask_eq hyields' name hafter).1
  change c.resolver.graph.keyOf name = .ok key at hkey
  rw [hkey] at htable hview
  rw [artifacts_fst]
  unfold Resolver.requestTable Resolver.requestView
  rw [htable, hview]
  rfl

theorem output_eq_of_key {α : Type} (hkey : c.graph.keyOf name = .ok key) (layer : Layer)
    (make : Schema → Except TermError α) :
    (c.output make layer name .empty).1 = (do
      let schema ← ((c.graph.schema c.resolver.options layer key).mapError
        RequestError.resolution).mapError TermError.request
      make schema) := by
  have hanswer := (c.resolver.request_eq layer name Memory.faithful_empty).1
  unfold Resolver.answer at hanswer
  change c.resolver.graph.keyOf name = .ok key at hkey
  rw [hkey] at hanswer
  unfold output
  dsimp only
  rw [hanswer]
  rfl

theorem create_eq_ok_iff {statement : String} (hkey : c.graph.keyOf name = .ok key) :
    (c.create layer name .empty).1 = .ok statement ↔
      ∃ s, c.graph.schema c.resolver.options layer key = .ok s ∧
        c.generator.create s = .ok statement := by
  unfold create
  rw [output_eq_of_key hkey]
  simp only [bind_eq_ok_iff, mapError_eq_ok_iff]

theorem test_eq_ok_iff {tests : String} (hkey : c.graph.keyOf name = .ok key) :
    (c.test layer name .empty).1 = .ok tests ↔
      ∃ s, c.graph.schema c.resolver.options layer key = .ok s ∧
        (c.generator.script s).map Sql.Script.render = .ok tests := by
  unfold test
  rw [output_eq_of_key hkey]
  simp only [bind_eq_ok_iff, mapError_eq_ok_iff]

theorem artifacts_eq_ok_iff (hkey : c.graph.keyOf name = .ok key)
    (hlabel : c.graph.label key = name) :
    (c.artifacts name .empty).1 = .ok a ↔ c.GeneratesAlone name a := by
  rw [artifacts_eq_of_key hkey]
  simp only [bind_eq_ok_iff, mapError_eq_ok_iff, artifactsOf_eq_ok_iff]
  constructor
  · rintro ⟨table, htable, view, hview, hcreate, hcreate', htest, htest', hterm⟩
    have hschema : c.graph.schema c.resolver.options .physical key = .ok (.table table) :=
      congrArg (Except.map Schema.table) htable
    have hschema' : c.graph.schema c.resolver.options .logical key = .ok (.view view) :=
      congrArg (Except.map Schema.view) hview
    constructor
    case term_eq => rw [hterm, (Graph.isTable_of_table_eq_ok htable).label_eq, hlabel]
    case create_table => exact (create_eq_ok_iff hkey).mpr ⟨_, hschema, hcreate⟩
    case create_view => exact (create_eq_ok_iff hkey).mpr ⟨_, hschema', hcreate'⟩
    case test_table => exact (test_eq_ok_iff hkey).mpr ⟨_, hschema, htest⟩
    case test_view => exact (test_eq_ok_iff hkey).mpr ⟨_, hschema', htest'⟩
  · intro h
    obtain ⟨s, hs, hcreate⟩ := (create_eq_ok_iff hkey).mp h.create_table
    obtain ⟨s', hs', hcreate'⟩ := (create_eq_ok_iff hkey).mp h.create_view
    obtain ⟨t, ht, htest⟩ := (test_eq_ok_iff hkey).mp h.test_table
    obtain ⟨t', ht', htest'⟩ := (test_eq_ok_iff hkey).mp h.test_view
    obtain rfl := Except.ok.inj (hs.symm.trans ht)
    obtain rfl := Except.ok.inj (hs'.symm.trans ht')
    obtain ⟨table, htable, rfl⟩ := exists_of_map_eq_ok hs
    obtain ⟨view, hview, rfl⟩ := exists_of_map_eq_ok hs'
    refine ⟨table, htable, view, hview, hcreate, hcreate', htest, htest', ?_⟩
    rw [h.term_eq, (Graph.isTable_of_table_eq_ok htable).label_eq, hlabel]

theorem artifacts_reported (hkey : c.graph.keyOf name = .ok key)
    (hranges : c.generator.ranges = .builtIn) {e : TermError}
    (h : (c.artifacts name .empty).1 = .error e) : e.IsReported := by
  rw [artifacts_eq_of_key hkey] at h
  simp only [bind_eq_error_iff, mapError_eq_error_iff] at h
  rcases h with ⟨_, ⟨e, he, rfl⟩, rfl⟩ | ⟨table, -, ⟨_, ⟨e, he, rfl⟩, rfl⟩ | ⟨view, -, e, he, rfl⟩⟩
  · exact Graph.table_reported he
  · exact Graph.view_reported he
  · exact reports_artifactsOf hranges table view e he

theorem splits_termwise (hc : compile settings text = .ok c) : c.Splits c.termwise where
  names_nodup := nodup_termNames hc
  results_sublist := Batch.map_results_sublist
  failures_sublist := Batch.map_failures_sublist
  mem_results_or_failures := fun name hname => Batch.xor_mem_split hname
  mem_results_iff := by
    intro name a
    refine Batch.mem_results_split_iff.trans ?_
    refine and_congr_right fun hname => ?_
    obtain ⟨key, hkey, hlabel⟩ := exists_key_of_mem_termNames hc hname
    exact artifacts_eq_ok_iff hkey hlabel
  mem_failures_iff := fun name e => Batch.mem_failures_split_iff
  failures_reported := by
    rintro ⟨name, e⟩ hf
    obtain ⟨hname, he⟩ := Batch.mem_failures_split_iff.mp hf
    obtain ⟨key, hkey, -⟩ := exists_key_of_mem_termNames hc hname
    exact artifacts_reported hkey (ranges_eq_builtIn hc) he

theorem allArtifacts_eq (workers : Option Int) (hc : compile settings text = .ok c)
    (hmemory : memory.Faithful c.graph c.resolver.options) :
    (c.allArtifacts workers memory).1 =
      (requireWorkers (workers.or c.maxWorkers)).map fun _ => c.termwise := by
  have hbatch := (Batch.collect_eq (fun name _ hs => artifacts_faithful name hs) c.termNames
    Batch.empty memory hmemory).1
  rw [← Batch.gather_map, Batch.gather_map_of_nodup (nodup_termNames hc)] at hbatch
  unfold allArtifacts
  cases requireWorkers (workers.or c.maxWorkers) with
  | error fault => rfl
  | ok _ => exact congrArg Except.ok hbatch

theorem splits_of_allArtifacts {workers : Option Int} {b : Batch TermError Artifacts}
    (hc : compile settings text = .ok c) (hmemory : memory.Faithful c.graph c.resolver.options)
    (hb : (c.allArtifacts workers memory).1 = .ok b) : c.Splits b := by
  rw [allArtifacts_eq workers hc hmemory] at hb
  obtain ⟨-, -, rfl⟩ := exists_of_map_eq_ok hb
  exact splits_termwise hc

/-- For any number of workers and on any memory that resolution may have left, the artifacts of all
terms come to the batch that splits the terms; and so does every run of a pool that does the same
work in turns. -/
theorem allArtifacts_isolates {workers : Option Int} (hc : compile settings text = .ok c)
    (hmemory : memory.Faithful c.graph c.resolver.options)
    (hworkers : ∀ n, workers.or c.maxWorkers = some n → 1 ≤ n) :
    ∃ b, (c.allArtifacts workers memory).1 = .ok b ∧ c.Splits b ∧
      ∀ size > 0, (WellFounded fun q p => Pool.Step (α := Except TermError Artifacts) size p q) ∧
        ∀ p, Relation.ReflTransGen (Pool.Step size) (Pool.start memory c.work c.termNames) p →
          (∀ q, ¬Pool.Step size p q) → p.batch c.termNames = b := by
  refine ⟨_, ?_, splits_termwise hc, fun size hsize => ⟨Pool.wellFounded_step size, ?_⟩⟩
  · have hrequired : requireWorkers (workers.or c.maxWorkers) = .ok () := by
      cases hn : workers.or c.maxWorkers with
      | none => rfl
      | some n => exact if_pos (hworkers n hn)
    rw [allArtifacts_eq workers hc hmemory, hrequired]
    rfl
  · intro p hrun hend
    rw [termwise, ← Batch.gather_map_of_nodup (nodup_termNames hc)]
    exact Pool.comes_to_batch hmemory c.yields_work c.termNames hsize hrun hend

theorem compile_libraryText (settings : Settings)
    (h : settings.primitives = Settings.standard.primitives) :
    compile settings libraryText =
      .ok (settings.compiled (.ofTerms (.ofNames settings.primitives) libraryTerms)) := by
  have hterms := eq_ok_of_toOption_eq_some terms_libraryText_shopText.1
  have hbuild := build_libraryTerms
  rw [← h] at hterms hbuild
  exact compile_eq_ok_iff.mpr ⟨libraryTerms, _, hterms, hbuild, rfl⟩

theorem library_isolates :
    ∃ c b, compile .standard libraryText = .ok c ∧ (c.allArtifacts (some 2) .empty).1 = .ok b ∧
      c.Splits b := by
  have hc := compile_libraryText .standard rfl
  have hworkers : ∀ n, (some (2 : Int)).or Settings.standard.maxWorkers = some n → 1 ≤ n := by
    rintro n ⟨⟩
    decide
  obtain ⟨b, hb, hsplits, -⟩ := allArtifacts_isolates hc Memory.faithful_empty hworkers
  exact ⟨_, b, hc, hb, hsplits⟩

/-- Settings are accepted with any number of workers, and without workers nothing is made. -/
theorem library_withoutWorkers :
    ∃ c, compile { Settings.standard with maxWorkers := some 0 } libraryText = .ok c ∧
      (c.allArtifacts none .empty).1 = .error (.notPositive 0) :=
  ⟨_, compile_libraryText _ rfl, rfl⟩

end CompiledDictionary

end Glossary
