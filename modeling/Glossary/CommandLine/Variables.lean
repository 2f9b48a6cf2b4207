import Glossary.Text.Blank
import Glossary.Text.Lines
import Glossary.Text.Lowercase

/-!
Variables with their values, and files that set them. A file holds one statement a line: a name, and
a value after an equals sign. Comments follow number signs, quoted values may go over several lines,
and values may refer to variables.
-/

namespace Glossary.CommandLine

open Text

/-- Variables in order; of two that differ only in letter case the later counts. -/
abbrev Variables := List (String × String)

/-- What a statement says of a variable; without a value the variable is taken back. -/
structure Assignment where
  name : String
  value : Option String
  deriving DecidableEq

/-- What stands at one place of a file. -/
inductive FileStatement where
  | assignment (a : Assignment)
  | comment
  | unreadable
  deriving DecidableEq

/-- The statements of a file with the lines that they begin on; a statement begins where the one
before it ends. -/
abbrev FileStatements := List (Nat × FileStatement)

/-! ## Reading statements -/

def isInlineBlank (c : Char) : Bool :=
  isBlank c && c != '\n'

def skipInline (cs : List Char) : List Char :=
  cs.dropWhile isInlineBlank

def restOfLine (cs : List Char) : List Char :=
  cs.takeWhile fun c => c != '\n'

/-- The text after the line that it begins with. -/
def nextLine (cs : List Char) : List Char :=
  (cs.drop (restOfLine cs).length).drop 1

/-- The word `export` in front of a name says nothing. -/
def skipExport (cs : List Char) : List Char :=
  let word := "export".toList
  if word.isPrefixOf cs && (cs.drop word.length).head?.any isInlineBlank then
    skipInline (cs.drop word.length)
  else cs

/-- The name that a statement begins with, and the text after it; a comment has no name. -/
def readName : List Char → Option (Option (List Char) × List Char)
  | '#' :: rest => some (none, '#' :: rest)
  | '\x27' :: rest =>
      let name := rest.takeWhile fun c => c != '\x27'
      match name, rest.drop name.length with
      | [], _ => none
      | _, [] => none
      | _, _ :: after => some (some name, after)
  | cs =>
      let name := cs.takeWhile fun c => c != '=' && c != '#' && !isBlank c
      if name.isEmpty then none else some (some name, cs.drop name.length)

/-- The characters up to a closing quote, and the text after it. The character after a backslash
does not close. -/
def readQuoted (quote : Char) : List Char → Option (List Char × List Char)
  | [] => none
  | ['\\'] => none
  | '\\' :: c :: rest =>
      (readQuoted quote rest).map fun found => ('\\' :: c :: found.1, found.2)
  | c :: rest =>
      if c == quote then some ([], rest)
      else (readQuoted quote rest).map fun found => (c :: found.1, found.2)

/-- Replaces a backslash and the character after it where they stand for another character. -/
def unescape (escape : Char → Option Char) : List Char → List Char
  | '\\' :: c :: rest =>
      match escape c with
      | some plain => plain :: unescape escape rest
      | none => '\\' :: c :: unescape escape rest
  | c :: rest => c :: unescape escape rest
  | [] => []

def singleEscape (c : Char) : Option Char :=
  if c == '\\' || c == '\x27' then some c else none

def doubleEscape : Char → Option Char
  | 'a' => some '\x07'
  | 'b' => some '\x08'
  | 'f' => some '\x0c'
  | 'n' => some '\n'
  | 'r' => some '\r'
  | 't' => some '\t'
  | 'v' => some '\x0b'
  | c => if c == '\\' || c == '\x27' || c == '"' then some c else none

/-- A value without quotes ends before a number sign that blanks precede. -/
def uncommented : List Char → List Char
  | [] => []
  | c :: rest =>
      if isBlank c && (trimStart (c :: rest)).head? == some '#' then []
      else c :: uncommented rest

/-- The value after an equals sign, and the text after it. -/
def readValue (cs : List Char) : Option (List Char × List Char) :=
  match skipInline cs with
  | '\x27' :: rest =>
      (readQuoted '\x27' rest).map fun found => (unescape singleEscape found.1, found.2)
  | '"' :: rest =>
      (readQuoted '"' rest).map fun found => (unescape doubleEscape found.1, found.2)
  | _ =>
      let line := restOfLine cs
      some (trim (uncommented line), cs.drop line.length)

/-- The text after the end of a statement, which a comment may precede. -/
def afterStatement? (cs : List Char) : Option (List Char) :=
  let afterComment :=
    match skipInline cs with
    | '#' :: rest => rest.drop (restOfLine rest).length
    | _ => cs
  match skipInline afterComment with
  | [] => some []
  | '\n' :: rest => some rest
  | _ => none

/-- Ends a statement; one that does not end is unreadable with the line it is on. -/
def endStatement (name : Option (List Char)) (value : Option (List Char)) (cs : List Char) :
    FileStatement × List Char :=
  match afterStatement? cs, name with
  | some rest, some n => (.assignment ⟨String.ofList n, value.map String.ofList⟩, rest)
  | some rest, none => (.comment, rest)
  | none, _ => (.unreadable, nextLine cs)

/-- The statement that a text begins with, and the text after it. -/
def readStatement (cs : List Char) : FileStatement × List Char :=
  let start := skipExport cs
  match readName start with
  | none => (.unreadable, nextLine start)
  | some (name, afterName) =>
      match skipInline afterName with
      | '=' :: rest =>
          match readValue rest with
          | some (value, after) => endStatement name (some value) after
          | none => (.unreadable, nextLine rest)
      | after => endStatement name none after

/-- The statements of a text whose first line has the given number; every one takes a step. -/
def readStatements : Nat → Nat → List Char → FileStatements
  | 0, _, _ => []
  | steps + 1, line, cs =>
      match trimStart cs with
      | [] => []
      | start =>
          let (found, rest) := readStatement start
          let passed := (cs.take (cs.length - rest.length)).count '\n'
          (line, found) :: readStatements steps (line + passed) rest

/-- The statements of a file, whose lines may end in any way and which may begin with a mark of its
encoding. -/
def statementsOfFile (cs : List Char) : FileStatements :=
  let text :=
    match unifyBreaks cs with
    | '\ufeff' :: rest => rest
    | text => text
  readStatements (text.length + 1) 1 text

def assignments (statements : FileStatements) : List Assignment :=
  statements.filterMap fun s =>
    match s.2 with
    | .assignment a => some a
    | _ => none

/-- What a user is told about the statements that cannot be read. -/
def warnings (statements : FileStatements) : String :=
  String.join (statements.map fun s =>
    match s.2 with
    | .unreadable =>
        "python-dotenv could not parse statement starting at line " ++ toString s.1 ++ "\n"
    | _ => "")

/-! ## References -/

/-- A reference to a variable, with the text that stands for it when it is not set. -/
structure Reference where
  name : List Char
  standard : List Char

/-- The reference after a dollar sign, and its length. -/
def readReference : List Char → Option (Reference × Nat)
  | '\x7b' :: rest =>
      let name := rest.takeWhile fun c => c != '\x7d' && c != ':'
      match rest.drop name.length with
      | '\x7d' :: _ => some (⟨name, []⟩, name.length + 2)
      | ':' :: '-' :: more =>
          let standard := more.takeWhile fun c => c != '\x7d'
          if (more.drop standard.length).isEmpty then none
          else some (⟨name, standard⟩, name.length + standard.length + 4)
      | _ => none
  | _ => none

/-- Drops the given number of characters and replaces the references after them. -/
def expandAfter (meaning : Reference → List Char) : Nat → List Char → List Char
  | _, [] => []
  | skip + 1, _ :: rest => expandAfter meaning skip rest
  | 0, c :: rest =>
      match if c == '$' then readReference rest else none with
      | some (reference, length) => meaning reference ++ expandAfter meaning length rest
      | none => c :: expandAfter meaning 0 rest

/-- Values of a file, one for each name. -/
abbrev FileValues := List (String × Option String)

/-- What a reference stands for: the variable, or else the value that the file gave before. -/
def Reference.meaning (vars : Variables) (values : FileValues) (r : Reference) : List Char :=
  let name := String.ofList r.name
  match vars.lookup name, values.lookup name with
  | some value, _ => value.toList
  | none, some value => (value.getD "").toList
  | none, none => r.standard

/-- Gives a name its value; one that has a value already keeps its place. -/
def setValue (values : FileValues) (name : String) (value : Option String) : FileValues :=
  if (values.lookup name).isSome then
    values.map fun v => if v.1 == name then (name, value) else v
  else values ++ [(name, value)]

/-- The values that statements give, in order, under the variables that are set. -/
def valuesOf (vars : Variables) (assignments : List Assignment) : FileValues :=
  assignments.foldl (fun values a =>
    setValue values a.name (a.value.map fun value =>
      String.ofList (expandAfter (Reference.meaning vars values) 0 value.toList))) []

/-! ## Variables and files -/

/-- The variables that a file adds to those that are set. -/
def addedBy (vars : Variables) (statements : FileStatements) : Variables :=
  (valuesOf vars (assignments statements)).filterMap fun v =>
    if (vars.lookup v.1).isSome then none else v.2.map fun value => (v.1, value)

/-- A character with letter case forgotten, as far as small ASCII letters are concerned. -/
def foldCase (c : Char) : Char :=
  if c == 'ſ' then 's' else c.toLower

/-- The variable that forbids to read files of variables. -/
def switchName : String := "PYTHON_DOTENV_DISABLED"

/-- Whether files of variables are not to be read. -/
def ignoresFiles (vars : Variables) : Bool :=
  (vars.lookup switchName).any fun value =>
    ["1", "true", "t", "yes", "y"].contains (value.map foldCase)

/-- Null characters cannot be kept in a variable, nor equals signs in its name. -/
def canBeSet (v : String × String) : Bool :=
  !v.1.contains '\x00' && !v.1.contains '=' && !v.2.contains '\x00'

/-- The names of the variables that the text of a file refers to. -/
def referredNames : List Char → List String
  | [] => []
  | c :: rest =>
      match if c == '$' then readReference rest else none with
      | some (reference, _) => String.ofList reference.name :: referredNames rest
      | none => referredNames rest

def lowerName (name : String) : String :=
  String.ofList (lower name.toList)

end Glossary.CommandLine
