import Glossary.Dictionary.Terms
import Glossary.Graph.Build
import Glossary.Listing
import Glossary.Resolve.Request
import Glossary.Sql.Generator

/-!
Compiled dictionaries: from the text of a dictionary to listings, statements and validation scripts.
-/

namespace Glossary

open Sql

structure Settings where
  identifierType : String
  strict : Bool
  maxWorkers : Option Int
  inlineViews : Bool
  extraPrimitives : List (String × String)

def Settings.standard : Settings := ⟨"String", false, none, true, []⟩

/-- The built-in primitive types and the extra ones that are not spelled like one of them. -/
def Settings.primitives (s : Settings) : List String :=
  builtInPrimitives ++
    (s.extraPrimitives.map Prod.fst).filter fun name => !builtInPrimitives.contains name

structure CompiledDictionary where
  resolver : Resolver
  generator : Generator
  maxWorkers : Option Int

/-- Why a dictionary is not compiled. -/
inductive CompileError where
  | parse (error : Dictionary.ParseError)
  | link (error : LinkError)

def CompileError.diagnostic? : CompileError → Option Diagnostic
  | parse error => error.diagnostic?
  | link error => some error.diagnostic

/-- Why a single term has no output. -/
inductive TermError where
  | request (error : RequestError)
  | generation (error : SqlError)
  | noColumns

def TermError.diagnostic? : TermError → Option Diagnostic
  | request error => some error.diagnostic
  | generation error => error.diagnostic?
  | noColumns => none

/-- Reads the terms of a dictionary and links them. -/
def compile (settings : Settings) (text : String) : Except CompileError CompiledDictionary := do
  let primitives := Primitives.ofNames settings.primitives
  let terms ← (Dictionary.terms primitives text).mapError CompileError.parse
  let graph ← (Graph.build primitives terms).mapError CompileError.link
  return {
    resolver := ⟨graph, ⟨settings.identifierType, settings.strict⟩⟩
    generator := ⟨TypeMap.extend settings.extraPrimitives, settings.inlineViews, .builtIn⟩
    maxWorkers := settings.maxWorkers }

/-- What is generated for a term in both layers. -/
structure Artifacts where
  term : String
  tableStatement : String
  viewStatement : String
  tableTests : String
  viewTests : String
  deriving DecidableEq

namespace CompiledDictionary

def graph (c : CompiledDictionary) : Graph :=
  c.resolver.graph

def termNames (c : CompiledDictionary) : List String :=
  c.graph.terms.map Term.name

/-- Resolves a term and makes something of its schema. -/
def output {α : Type} (c : CompiledDictionary) (make : Schema → Except TermError α) (layer : Layer)
    (name : String) (memory : Memory) : Except TermError α × Memory :=
  let (result, after) := c.resolver.request layer name memory
  ((result.mapError TermError.request).bind make, after)

def listing (s : Schema) : Except TermError String :=
  match Listing.render? s with
  | some text => .ok text
  | none => .error .noColumns

def describe (c : CompiledDictionary) :
    Layer → String → Memory → Except TermError String × Memory :=
  c.output listing

def create (c : CompiledDictionary) :
    Layer → String → Memory → Except TermError String × Memory :=
  c.output fun s => (c.generator.create s).mapError .generation

def script (c : CompiledDictionary) :
    Layer → String → Memory → Except TermError Script × Memory :=
  c.output fun s => (c.generator.script s).mapError .generation

def test (c : CompiledDictionary) :
    Layer → String → Memory → Except TermError String × Memory :=
  c.output fun s => ((c.generator.script s).map Script.render).mapError .generation

/-- The four artifacts that a table and a view of one term give. -/
def artifactsOf (g : Generator) (table : TableSchema) (view : ViewSchema) :
    Except SqlError Artifacts := do
  let tableStatement ← g.createTable table
  let viewStatement ← g.createView view
  let tableTests ← g.tableScript table
  let viewTests ← g.viewScript view
  return ⟨table.label, tableStatement, viewStatement, tableTests.render,
    viewTests.render⟩

/-- All four artifacts of a term, or the first error on the way to them. -/
def artifacts (c : CompiledDictionary) (name : String) (memory : Memory) :
    Except TermError Artifacts × Memory :=
  match c.resolver.requestTable name memory with
  | (.error error, after) => (.error (.request error), after)
  | (.ok table, after) =>
      match c.resolver.requestView name after with
      | (.error error, last) => (.error (.request error), last)
      | (.ok view, last) => ((artifactsOf c.generator table view).mapError .generation, last)

/-- The artifacts of all terms; a term with an error has none and does not touch the others. -/
def allArtifacts (c : CompiledDictionary) (workers : Option Int) (memory : Memory) :
    Except WorkersError (Batch TermError Artifacts) × Memory :=
  match requireWorkers (workers.or c.maxWorkers) with
  | .error error => (.error error, memory)
  | .ok () =>
      let outcome := Batch.collect c.artifacts Batch.empty memory c.termNames
      (.ok outcome.1, outcome.2)

end CompiledDictionary

end Glossary
