import Glossary.Compilation
import Glossary.Proofs.Memory
import Glossary.Proofs.Reordering

/-!
What is answered and generated for a term depends on nothing but the terms that it leads to: not on
the other terms of the dictionary, and not on the order of its blocks.
-/

namespace Glossary

open Fallible

namespace Resolver

variable {r r' : Resolver} {name : String}

/-- Requests for the name are answered alike, whatever was resolved before them. -/
structure AnswersAlike (r r' : Resolver) (name : String) : Prop where
  request_eq : ∀ layer memory memory', memory.Faithful r.graph r.options →
    memory'.Faithful r'.graph r'.options →
      (r.request layer name memory).1 = (r'.request layer name memory').1
  requestTable_eq : ∀ memory memory', memory.Faithful r.graph r.options →
    memory'.Faithful r'.graph r'.options →
      (r.requestTable name memory).1 = (r'.requestTable name memory').1
  requestView_eq : ∀ memory memory', memory.Faithful r.graph r.options →
    memory'.Faithful r'.graph r'.options →
      (r.requestView name memory).1 = (r'.requestView name memory').1

theorem answersAlike_of_schemas_eq (hkey : r'.graph.keyOf name = r.graph.keyOf name)
    (htable : ∀ key, r.graph.keyOf name = .ok key →
      r.graph.table r.options key = r'.graph.table r'.options key)
    (hview : ∀ key, r.graph.keyOf name = .ok key →
      r.graph.view r.options key = r'.graph.view r'.options key) : r.AnswersAlike r' name where
  request_eq layer memory memory' hmemory hmemory' := by
    have hschema : ∀ key, r.graph.keyOf name = .ok key →
        r.graph.schema r.options layer key = r'.graph.schema r'.options layer key := by
      intro key hname
      unfold Graph.schema
      rw [htable key hname, hview key hname]
    exact ask_eq_ask (fun key => Resolution.yields_schema r.graph r.options layer key)
      (fun key => Resolution.yields_schema r'.graph r'.options layer key) hkey hschema hmemory
      hmemory'
  requestTable_eq memory memory' hmemory hmemory' :=
    ask_eq_ask (fun key => Resolution.yields_table r.graph r.options key)
      (fun key => Resolution.yields_table r'.graph r'.options key) hkey htable hmemory hmemory'
  requestView_eq memory memory' hmemory hmemory' :=
    ask_eq_ask (fun key => Resolution.yields_view r.graph r.options key)
      (fun key => Resolution.yields_view r'.graph r'.options key) hkey hview hmemory hmemory'

end Resolver

namespace Graph

variable {g g' : Graph} {primitives : Primitives} {terms terms' : List Term} {key : Key}
  {name : String}

theorem keyOf_eq_ok_iff :
    g.keyOf name = .ok key ↔ g.declares (Name.key name) = true ∧ Name.key name = key := by
  unfold keyOf
  dsimp only
  cases g.declares (Name.key name) with
  | true => simp
  | false => cases g.primitives.spelling? (Name.key name) <;> simp

theorem keyOf_congr (hprimitives : g'.primitives = g.primitives)
    (hdeclares : g'.declares (Name.key name) = g.declares (Name.key name)) :
    g'.keyOf name = g.keyOf name := by
  unfold keyOf
  dsimp only
  rw [hprimitives, hdeclares]

theorem RecordsAlike.declares (h : g.RecordsAlike g' key) (hkey : g.declares key = true) :
    g'.declares key = true := by
  have hrecord := congrArg Option.isSome (h key Relation.ReflTransGen.refl hkey)
  unfold term? at hrecord
  simp only [Option.isSome_map] at hrecord
  exact hrecord.symm.trans hkey

/-- Graphs that record alike what a name leads to answer alike for it. -/
theorem answersAlike_of_recordsAlike (hg : build primitives terms = .ok g)
    (hg' : build primitives terms' = .ok g')
    (hdeclares : g'.declares (Name.key name) = g.declares (Name.key name))
    (h : g.RecordsAlike g' (Name.key name)) (o : ResolutionOptions) :
    (Resolver.mk g o).AnswersAlike ⟨g', o⟩ name := by
  have hprimitives : g'.primitives = g.primitives := by
    rw [(build_eq_ok_iff.mp hg).1, (build_eq_ok_iff.mp hg').1]
    rfl
  apply Resolver.answersAlike_of_schemas_eq
  · exact keyOf_congr hprimitives hdeclares
  · intro key hname
    obtain ⟨hkey, rfl⟩ := keyOf_eq_ok_iff.mp hname
    exact (agreesOn_of_recordsAlike hg hg' hkey h).table_eq o Relation.ReflTransGen.refl
  · intro key hname
    obtain ⟨hkey, rfl⟩ := keyOf_eq_ok_iff.mp hname
    exact (agreesOn_of_recordsAlike hg hg' hkey h).view_eq o Relation.ReflTransGen.refl

end Graph

namespace CompiledDictionary

/-- Both dictionaries generate the same for the name, whatever was resolved before. -/
structure GeneratesAlike (c c' : CompiledDictionary) (name : String) : Prop where
  describe_eq : ∀ layer memory memory', memory.Faithful c.graph c.resolver.options →
    memory'.Faithful c'.graph c'.resolver.options →
      (c.describe layer name memory).1 = (c'.describe layer name memory').1
  create_eq : ∀ layer memory memory', memory.Faithful c.graph c.resolver.options →
    memory'.Faithful c'.graph c'.resolver.options →
      (c.create layer name memory).1 = (c'.create layer name memory').1
  script_eq : ∀ layer memory memory', memory.Faithful c.graph c.resolver.options →
    memory'.Faithful c'.graph c'.resolver.options →
      (c.script layer name memory).1 = (c'.script layer name memory').1
  test_eq : ∀ layer memory memory', memory.Faithful c.graph c.resolver.options →
    memory'.Faithful c'.graph c'.resolver.options →
      (c.test layer name memory).1 = (c'.test layer name memory').1
  artifacts_eq : ∀ memory memory', memory.Faithful c.graph c.resolver.options →
    memory'.Faithful c'.graph c'.resolver.options →
      (c.artifacts name memory).1 = (c'.artifacts name memory').1

variable {c c' : CompiledDictionary} {name : String} {memory memory' : Memory}

theorem output_eq {α : Type} (h : c.resolver.AnswersAlike c'.resolver name)
    (hmemory : memory.Faithful c.graph c.resolver.options)
    (hmemory' : memory'.Faithful c'.graph c'.resolver.options) (make : Schema → Except TermError α)
    (layer : Layer) :
    (c.output make layer name memory).1 = (c'.output make layer name memory').1 := by
  unfold output
  dsimp only
  rw [h.request_eq layer memory memory' hmemory hmemory']

theorem artifacts_fst (c : CompiledDictionary) (name : String) (memory : Memory) :
    (c.artifacts name memory).1 = (do
      let table ← (c.resolver.requestTable name memory).1.mapError TermError.request
      let view ← (c.resolver.requestView name
        (c.resolver.requestTable name memory).2).1.mapError TermError.request
      (artifactsOf c.generator table view).mapError TermError.generation) := by
  unfold artifacts
  obtain ⟨answer, after⟩ := c.resolver.requestTable name memory
  cases answer with
  | error error => rfl
  | ok table =>
      dsimp only
      obtain ⟨answer, last⟩ := c.resolver.requestView name after
      cases answer with
      | error error => rfl
      | ok view => rfl

theorem artifacts_eq (h : c.resolver.AnswersAlike c'.resolver name)
    (hgenerator : c'.generator = c.generator)
    (hmemory : memory.Faithful c.graph c.resolver.options)
    (hmemory' : memory'.Faithful c'.graph c'.resolver.options) :
    (c.artifacts name memory).1 = (c'.artifacts name memory').1 := by
  have hview := h.requestView_eq _ _ (c.resolver.faithful_requestTable name hmemory)
    (c'.resolver.faithful_requestTable name hmemory')
  rw [artifacts_fst, artifacts_fst, h.requestTable_eq memory memory' hmemory hmemory', hview,
    hgenerator]

theorem generatesAlike_of_answersAlike (h : c.resolver.AnswersAlike c'.resolver name)
    (hgenerator : c'.generator = c.generator) : c.GeneratesAlike c' name where
  describe_eq layer memory memory' hmemory hmemory' := output_eq h hmemory hmemory' _ layer
  create_eq layer memory memory' hmemory hmemory' := by
    unfold create
    rw [hgenerator]
    exact output_eq h hmemory hmemory' _ layer
  script_eq layer memory memory' hmemory hmemory' := by
    unfold script
    rw [hgenerator]
    exact output_eq h hmemory hmemory' _ layer
  test_eq layer memory memory' hmemory hmemory' := by
    unfold test
    rw [hgenerator]
    exact output_eq h hmemory hmemory' _ layer
  artifacts_eq memory memory' hmemory hmemory' := artifacts_eq h hgenerator hmemory hmemory'

end CompiledDictionary

/-- What a graph is compiled to. -/
def Settings.compiled (s : Settings) (g : Graph) : CompiledDictionary where
  resolver := ⟨g, ⟨s.identifierType, s.strict⟩⟩
  generator := ⟨Sql.TypeMap.extend s.extraPrimitives, s.inlineViews, .builtIn⟩
  maxWorkers := s.maxWorkers

section Compile

variable {settings : Settings} {text text' : String} {c c' : CompiledDictionary} {name : String}

theorem compile_eq_ok_iff : compile settings text = .ok c ↔
    ∃ terms g, Dictionary.terms (.ofNames settings.primitives) text = .ok terms ∧
      Graph.build (.ofNames settings.primitives) terms = .ok g ∧ c = settings.compiled g := by
  unfold compile
  simp only [bind_eq_ok_iff, mapError_eq_ok_iff]
  constructor
  · rintro ⟨terms, hterms, g, hg, h⟩
    exact ⟨terms, g, hterms, hg, (Except.ok.inj h).symm⟩
  · rintro ⟨terms, g, hterms, hg, rfl⟩
    exact ⟨terms, hterms, g, hg, rfl⟩

theorem generatesAlike_of_recordsAlike (hc : compile settings text = .ok c)
    (hc' : compile settings text' = .ok c')
    (hdeclares : c'.graph.declares (Name.key name) = c.graph.declares (Name.key name))
    (h : c.graph.RecordsAlike c'.graph (Name.key name)) : c.GeneratesAlike c' name := by
  obtain ⟨terms, g, -, hg, rfl⟩ := compile_eq_ok_iff.mp hc
  obtain ⟨terms', g', -, hg', rfl⟩ := compile_eq_ok_iff.mp hc'
  have hanswers := Graph.answersAlike_of_recordsAlike hg hg' hdeclares h
    ⟨settings.identifierType, settings.strict⟩
  exact CompiledDictionary.generatesAlike_of_answersAlike hanswers rfl

/-- A dictionary compiles alike with its blocks in another order. -/
theorem exists_compile_of_sameBlocks (hc : compile settings text = .ok c)
    (hsame : Dictionary.SameBlocks text text') :
    ∃ c', compile settings text' = .ok c' ∧ ∀ name, c.GeneratesAlike c' name := by
  obtain ⟨terms, g, hterms, hg, rfl⟩ := compile_eq_ok_iff.mp hc
  obtain ⟨terms', hterms', hperm⟩ := Dictionary.exists_terms_of_sameBlocks hterms hsame
  obtain ⟨g', hg', hrecords⟩ := Graph.exists_build_of_perm hg hperm
  have hc' := compile_eq_ok_iff.mpr ⟨terms', g', hterms', hg', rfl⟩
  refine ⟨_, hc', fun name => ?_⟩
  obtain ⟨hdeclares, halike⟩ := hrecords (Name.key name)
  exact generatesAlike_of_recordsAlike hc hc' hdeclares halike

/-- Resolution is local. Graphs that record alike the terms that a name leads to answer alike for
it, and dictionaries that do so generate the same for it; the order of the blocks of a dictionary is
not seen at all. -/
theorem resolution_isLocal :
    (∀ primitives terms terms' g g' o name, Graph.build primitives terms = .ok g →
      Graph.build primitives terms' = .ok g' → g.declares (Name.key name) = true →
      g.RecordsAlike g' (Name.key name) → (Resolver.mk g o).AnswersAlike ⟨g', o⟩ name) ∧
    (∀ settings text text' c c' name, compile settings text = .ok c →
      compile settings text' = .ok c' → c.graph.declares (Name.key name) = true →
      c.graph.RecordsAlike c'.graph (Name.key name) → c.GeneratesAlike c' name) ∧
    ∀ settings text text' c, compile settings text = .ok c → Dictionary.SameBlocks text text' →
      ∃ c', compile settings text' = .ok c' ∧ ∀ name, c.GeneratesAlike c' name := by
  refine ⟨?_, ?_, ?_⟩
  · intro primitives terms terms' g g' o name hg hg' hkey h
    exact Graph.answersAlike_of_recordsAlike hg hg' ((h.declares hkey).trans hkey.symm) h o
  · intro settings text text' c c' name hc hc' hkey h
    exact generatesAlike_of_recordsAlike hc hc' ((h.declares hkey).trans hkey.symm) h
  · intro settings text text' c hc hsame
    exact exists_compile_of_sameBlocks hc hsame

end Compile

def libraryText : String :=
  "# Author\nWho writes.\n\n# Book\nA work.\n- Book must have an Author\n"

def reversedText : String :=
  "# Book\nA work.\n- Book must have an Author\n\n# Author\nWho writes.\n"

/-- A shop that has books is none of their concern. -/
def shopText : String :=
  "# Shop\nA place.\n- Shop has a Book\n\n" ++ reversedText

def libraryTerms : List Term := [
  ⟨"Author", "Who writes.", none, none, [], some 1⟩,
  ⟨"Book", "A work.", none, none, [⟨.requires, "Book", "Author", some 6⟩], some 4⟩]

def shopTerms : List Term := [
  ⟨"Shop", "A place.", none, none, [⟨.composes, "Shop", "Book", some 3⟩], some 1⟩,
  ⟨"Book", "A work.", none, none, [⟨.requires, "Book", "Author", some 7⟩], some 5⟩,
  ⟨"Author", "Who writes.", none, none, [], some 9⟩]

theorem terms_libraryText_shopText :
    (Dictionary.terms (.ofNames Settings.standard.primitives) libraryText).toOption =
        some libraryTerms ∧
      (Dictionary.terms (.ofNames Settings.standard.primitives) shopText).toOption =
        some shopTerms := by
  decide +kernel

theorem build_libraryTerms :
    Graph.build (.ofNames Settings.standard.primitives) libraryTerms =
      .ok (.ofTerms (.ofNames Settings.standard.primitives) libraryTerms) := by
  rfl

theorem build_shopTerms :
    Graph.build (.ofNames Settings.standard.primitives) shopTerms =
      .ok (.ofTerms (.ofNames Settings.standard.primitives) shopTerms) := by
  rfl

theorem recordsAlike_book :
    (Graph.ofTerms (.ofNames Settings.standard.primitives) libraryTerms).RecordsAlike
      (.ofTerms (.ofNames Settings.standard.primitives) shopTerms) (Name.key "Book") := by
  have hmem : Name.key "Book" ∈ ["book", "author"] := by decide +kernel
  apply Graph.recordsAlike_of_closed hmem
  · decide +kernel
  · decide +kernel
  · decide +kernel

theorem sameBlocks_reversedText : Dictionary.SameBlocks libraryText reversedText := by
  have hblocks : (Dictionary.blocks libraryText.toList).toOption =
        some [⟨"Author", 1, ["Who writes."], []⟩,
          ⟨"Book", 4, ["A work."], [(6, "Book must have an Author")]⟩] ∧
      (Dictionary.blocks reversedText.toList).toOption =
        some [⟨"Book", 1, ["A work."], [(3, "Book must have an Author")]⟩,
          ⟨"Author", 5, ["Who writes."], []⟩] := by
    decide +kernel
  refine ⟨_, _, eq_ok_of_toOption_eq_some hblocks.1, eq_ok_of_toOption_eq_some hblocks.2, ?_⟩
  exact List.Perm.swap _ _ _

theorem book_isLocal :
    ∃ c c' c'', compile .standard libraryText = .ok c ∧ compile .standard shopText = .ok c' ∧
      compile .standard reversedText = .ok c'' ∧ c.resolver.AnswersAlike c'.resolver "Book" ∧
      c.GeneratesAlike c' "Book" ∧ c.GeneratesAlike c'' "Book" := by
  obtain ⟨hterms, hterms'⟩ := terms_libraryText_shopText
  have hc := compile_eq_ok_iff.mpr
    ⟨libraryTerms, _, eq_ok_of_toOption_eq_some hterms, build_libraryTerms, rfl⟩
  have hc' := compile_eq_ok_iff.mpr
    ⟨shopTerms, _, eq_ok_of_toOption_eq_some hterms', build_shopTerms, rfl⟩
  have hkey : (Graph.ofTerms (.ofNames Settings.standard.primitives) libraryTerms).declares
      (Name.key "Book") = true := by
    decide +kernel
  obtain ⟨hanswers, hgenerates, hreordered⟩ := resolution_isLocal
  obtain ⟨c'', hc'', hsame⟩ := hreordered .standard _ _ _ hc sameBlocks_reversedText
  refine ⟨_, _, c'', hc, hc', hc'', ?_, ?_, hsame "Book"⟩
  · exact hanswers _ _ _ _ _ _ "Book" build_libraryTerms build_shopTerms hkey recordsAlike_book
  · exact hgenerates .standard _ _ _ _ "Book" hc hc' hkey recordsAlike_book

end Glossary
