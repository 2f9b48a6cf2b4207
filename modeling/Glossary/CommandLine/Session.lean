import Glossary.CommandLine.Arguments
import Glossary.CommandLine.FileTree
import Glossary.CommandLine.Settings
import Glossary.Schema.Document
import Glossary.Text.ControlSequence

/-!
Sessions: what a command does step by step, as a program that asks for files and has files
written, and the run of such a program on a tree of files.
-/

namespace Glossary.CommandLine

open Text

/-- Why a session ends without an answer. -/
inductive Crash where
  | settings (fault : SettingsFault)
  | unknownVerb
  | noWorkers
  | noColumns
  | template (fault : Template.Fault)
  | read (fault : PathFault)
  | write (fault : PathFault)
  | unwritable
  deriving DecidableEq

inductive Session where
  | finished (exit : Nat) (output errors : String)
  | misused
  | crashed (cause : Crash)
  | readFile (path : Path) (next : Place → Session)
  | writeFile (path : Path) (text : String) (next : Session)
  | warn (text : String) (next : Session)

namespace Session

def fail (message : String) : Session :=
  .finished 1 "" ("Error: " ++ message ++ "\n")

def ofCompileError (e : CompileError) : Session :=
  match e.diagnostic? with
  | some d => fail d.message
  | none => .crashed .unknownVerb

def ofTermError (e : TermError) : Session :=
  match e.diagnostic? with
  | some d => fail d.message
  | none =>
      match e with
      | .generation (.template fault) => .crashed (.template fault)
      | _ => .crashed .noColumns

/-- Compiles the dictionary at a path from what stands there. -/
def withContent (settings : Settings) (path : Path) (next : CompiledDictionary → Session) :
    Place → Session
  | .missing => fail ("Dictionary file not found: " ++ path.text)
  | .directory => .crashed (.read .isDirectory)
  | .unreachable => .crashed (.read .tooLong)
  | .file bytes =>
      match Utf8.decode bytes with
      | .error fault => fail fault.message
      | .ok cs =>
          let text := unifyBreaks cs
          if text.all isBlank then
            fail ("Dictionary file is empty: " ++ path.text ++
              ". Declare at least one term with a heading line such as '# Customer'.")
          else
            match Glossary.compile settings (String.ofList text) with
            | .error e => ofCompileError e
            | .ok compilation => next compilation

/-- Reads and compiles the dictionary that the command line or else the configuration names. -/
def withDictionary (c : Configuration) (dictionary : Option String)
    (next : CompiledDictionary → Session) : Session :=
  let path := (dictionary.map Path.ofText).getD c.dictionary
  .readFile path (withContent c.settings path next)

/-- The way a term is shown. -/
def shown (compilation : CompiledDictionary) : Showing → Layer → String → Memory →
    Except TermError String × Memory
  | .describe => compilation.describe
  | .create => compilation.create
  | .test => compilation.test

/-- Shows terms in order, after those shown before; the first error is all that is shown then. -/
def showTerms (output : String → Memory → Except TermError String × Memory)
    (ending : String → Session) (before : List String) (memory : Memory) : List String → Session
  | [] => ending ("\n".intercalate before)
  | name :: rest =>
      match output name memory with
      | (.ok text, after) => showTerms output ending (before ++ [text]) after rest
      | (.error e, _) => ofTermError e

/-- Whether all SQL types in the table of a term can be written out. -/
def isWritable (c : Configuration) (compilation : CompiledDictionary) (name : String) : Bool :=
  match compilation.resolver.answer .physical name with
  | .ok s => s.columns.all fun column => !c.unwritable.contains column.primitive
  | .error _ => true

/-- Shows terms; of what is shown, only the statements for tables have SQL types in them. -/
def showAll (c : Configuration) (showing : Showing) (layer : Layer) (terms : List String)
    (compilation : CompiledDictionary) : Session :=
  let ending (text : String) : Session :=
    if showing = .create ∧ layer = .physical ∧ !terms.all (isWritable c compilation) then
      .crashed .unwritable
    else .finished 0 text ""
  showTerms (shown compilation showing layer) ending [] .empty terms

/-- The file for the statement that creates the table of a term. -/
def tableFile (outDir : Path) (a : Artifacts) : Path :=
  outDir.inside ["physical", Name.snakeCase a.term ++ ".sql"]

/-- The four files of a term with their texts. -/
def artifactFiles (outDir : Path) (a : Artifacts) : List (Path × String) :=
  let name := Name.snakeCase a.term ++ ".sql"
  [(tableFile outDir a, a.tableStatement),
    (outDir.inside ["logical", name], a.viewStatement),
    (outDir.inside ["tests", "physical_" ++ name], a.tableTests),
    (outDir.inside ["tests", "logical_" ++ name], a.viewTests)]

def writeAll (next : Session) : List (Path × String) → Session
  | [] => next
  | (path, text) :: rest => .writeFile path text (writeAll next rest)

def failureLine (failure : String × TermError) : String :=
  "Error: " ++ ((failure.2.diagnostic?.map Diagnostic.message).getD "") ++ "\n"

/-- Writes the files of terms in order. A statement that cannot be written leaves its file empty. -/
def writeResults (outDir : Path) (writable : String → Bool) (next : Session) :
    List (String × Artifacts) → Session
  | [] => next
  | (name, a) :: rest =>
      if writable name then
        writeAll (writeResults outDir writable next rest) (artifactFiles outDir a)
      else .writeFile (tableFile outDir a) "" (.crashed .unwritable)

/-- Writes the artifacts of all terms and the graph, and then reports the terms that failed. -/
def writeReport (outDir : Path) (writable : String → Bool) (compilation : CompiledDictionary)
    (b : Batch TermError Artifacts) : Session :=
  let files := b.results.flatMap fun r => artifactFiles outDir r.2
  let graphPath := outDir.inside ["graph.json"]
  let output :=
    "Compiled " ++ toString b.results.length ++ " terms into " ++ outDir.text ++ " (" ++
      toString files.length ++ " files)\nGraph written to " ++ graphPath.text ++ "\n"
  let ending :=
    if b.ok then .finished 0 output ""
    else
      .finished 1 output
        (String.join (b.failures.map failureLine) ++ toString b.failures.length ++
          " terms failed\n")
  writeResults outDir writable (.writeFile graphPath compilation.graph.document ending) b.results

def allArtifacts (c : Configuration) (outDir : Path) (compilation : CompiledDictionary) :
    Session :=
  match (compilation.allArtifacts none .empty).1 with
  | .error _ => .crashed .noWorkers
  | .ok b => writeReport outDir (isWritable c compilation) compilation b

def showGraph (out : Option String) (compilation : CompiledDictionary) : Session :=
  match out with
  | none => .finished 0 (compilation.graph.document ++ "\n") ""
  | some text =>
      let path := Path.ofText text
      .writeFile path compilation.graph.document
        (.finished 0 ("Graph written to " ++ path.text ++ "\n") "")

def usage : String :=
  "Usage: COMMAND [OPTIONS] [ARGS]\n\n" ++
    "  describe LAYER TERMS...  List the resolved columns of terms.\n" ++
    "  create LAYER TERMS...    Print the statements that create terms.\n" ++
    "  test LAYER TERMS...      Print the validation scripts of terms.\n" ++
    "  compile                  Write all artifacts of all terms.\n" ++
    "  graph                    Print the graph of terms.\n"

/-- The session of a command under a configuration. -/
def ofCommand (c : Configuration) : Command → Session
  | .help => .finished 0 usage ""
  | .show showing layer terms dictionary =>
      withDictionary c dictionary (showAll c showing layer terms)
  | .compile dictionary outDir =>
      withDictionary c dictionary (allArtifacts c ((outDir.map Path.ofText).getD c.outDir))
  | .graph dictionary out => withDictionary c dictionary (showGraph out)

/-- Where a file of variables is looked for: in the working directory and up to three above it. -/
def variableFiles : List Path :=
  (List.range 4).map fun up => ⟨"", List.replicate up ".." ++ [".env"]⟩

/-- Goes on with the first of some places at which something stands. -/
def withFirst (next : Place → Session) : List Path → Session
  | [] => next .missing
  | path :: rest => .readFile path fun
      | .missing => withFirst next rest
      | place => next place

/-- The session of a command with the file of variables at a place. -/
def ofCommandWith (vars : Variables) (command : Command) (file : Place) : Session :=
  match statementsAt vars file with
  | .error fault => .crashed (.settings fault)
  | .ok statements =>
      .warn (warnings statements)
        (match Configuration.ofStatements vars statements with
        | .error fault => .crashed (.settings fault)
        | .ok c => ofCommand c command)

/-- The session of a command line under environment variables. -/
def ofArguments (vars : Variables) (arguments : List String) : Session :=
  match Command.ofArguments? arguments with
  | none => .misused
  | some .help => .finished 0 usage ""
  | some command => withFirst (ofCommandWith vars command) variableFiles

end Session

/-- How a session ended and what it left on the tree. -/
structure Outcome where
  exit : Nat
  output : Option (String × String)
  crash : Option Crash
  files : FileTree

/-- The outcome of a session after a warning. -/
def Outcome.warned (text : String) (o : Outcome) : Outcome :=
  { o with output := o.output.map fun (output, errors) => (output, text ++ errors) }

/-- The bytes of a text in UTF-8. -/
def encode (text : String) : List Nat :=
  text.toUTF8.data.toList.map UInt8.toNat

/-- Runs a session on a tree of files. -/
def Session.runOn (files : FileTree) : Session → Outcome
  | .finished exit output errors => ⟨exit, some (plain output, plain errors), none, files⟩
  | .misused => ⟨2, none, none, files⟩
  | .crashed cause => ⟨1, some ("", ""), some cause, files⟩
  | .readFile path next => (next (files.read path)).runOn files
  | .writeFile path text next =>
      match files.write path (encode text) with
      | .ok after => next.runOn after
      | .error fault => ⟨1, some ("", ""), some (.write fault), files⟩
  | .warn text next => (next.runOn files).warned text

end Glossary.CommandLine
