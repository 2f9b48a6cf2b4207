import Glossary.Schema.Basic

/-!
Command lines: a command, its options in any place, and its positional arguments.
-/

namespace Glossary.CommandLine

/-- What is shown about terms. -/
inductive Showing where
  | describe
  | create
  | test
  deriving DecidableEq

inductive Command where
  | show (showing : Showing) (layer : Layer) (terms : List String) (dictionary : Option String)
  | compile (dictionary outDir : Option String)
  | graph (dictionary out : Option String)
  | help
  deriving DecidableEq

/-- An option with its long name and possibly a letter; every option but `help` takes a value. -/
inductive OptionName where
  | dictionary
  | outDir
  | out
  deriving DecidableEq

def OptionName.long : OptionName → String
  | dictionary => "--dictionary"
  | outDir => "--out-dir"
  | out => "--out"

def OptionName.letter? : OptionName → Option Char
  | dictionary => some 'd'
  | outDir => some 'o'
  | out => none

/-- Arguments sorted into positional ones and options, each in order. -/
structure Arguments where
  positional : List String
  options : List (OptionName × String)
  help : Bool
  deriving DecidableEq

namespace Arguments

def empty : Arguments := ⟨[], [], false⟩

def addPositional (a : Arguments) (values : List String) : Arguments :=
  { a with positional := a.positional ++ values }

def addOption (a : Arguments) (option : OptionName) (value : String) : Arguments :=
  { a with options := a.options ++ [(option, value)] }

/-- The last value given for an option. -/
def value? (a : Arguments) (option : OptionName) : Option String :=
  a.options.reverse.lookup option

/-- The values of options are paths, in which no null character stands. -/
def hasPaths (a : Arguments) : Bool :=
  [OptionName.dictionary, .outDir, .out].all fun option =>
    (a.value? option).all fun path => !path.contains '\x00'

end Arguments

/-- How an argument is read by itself. -/
inductive Shape where
  | positional
  | endOfOptions
  | help
  | option (name : OptionName)
  | optionWithValue (name : OptionName) (value : String)
  | unknown

/-- The part of a long option before an equals sign, and the value after it. -/
def splitLong (cs : List Char) : String × Option String :=
  let name := String.ofList (cs.takeWhile fun c => c != '=')
  match cs.dropWhile fun c => c != '=' with
  | [] => (name, none)
  | _ :: value => (name, some (String.ofList value))

/-- How an argument is read by a command with the given options. A single hyphen is positional. -/
def Shape.ofArgument (options : List OptionName) (argument : String) : Shape :=
  match argument.toList with
  | ['-', '-'] => .endOfOptions
  | '-' :: '-' :: rest =>
      let (name, value?) := splitLong ('-' :: '-' :: rest)
      match options.find? fun o => o.long == name with
      | some o =>
          match value? with
          | some value => .optionWithValue o value
          | none => .option o
      | none => if name = "--help" && value?.isNone then .help else .unknown
  | '-' :: letter :: rest =>
      match options.find? fun o => o.letter? == some letter with
      | some o => if rest.isEmpty then .option o else .optionWithValue o (String.ofList rest)
      | none => .unknown
  | _ => .positional

/-- Sorts arguments; there is no result when an option is unknown or lacks its value. -/
def Arguments.sort (options : List OptionName) (a : Arguments) : List String → Option Arguments
  | [] => some a
  | argument :: rest =>
      match Shape.ofArgument options argument with
      | .positional => (a.addPositional [argument]).sort options rest
      | .endOfOptions => some (a.addPositional rest)
      | .help => Arguments.sort options { a with help := true } rest
      | .optionWithValue o value => (a.addOption o value).sort options rest
      | .option o =>
          match rest with
          | [] => none
          | value :: rest => (a.addOption o value).sort options rest
      | .unknown => none

/-- The command that sorted arguments make up. -/
def Command.ofShowing (showing : Showing) (a : Arguments) : Option Command :=
  match a.positional with
  | layerName :: term :: terms =>
      (Layer.ofName? layerName).map fun layer =>
        .show showing layer (term :: terms) (a.value? .dictionary)
  | _ => none

/-- The command with this name, its options, and how it is made from sorted arguments. -/
def commandNamed? (name : String) : Option (List OptionName × (Arguments → Option Command)) :=
  let plain (make : Arguments → Command) (a : Arguments) : Option Command :=
    if a.positional.isEmpty then some (make a) else none
  match name with
  | "describe" => some ([.dictionary], Command.ofShowing .describe)
  | "create" => some ([.dictionary], Command.ofShowing .create)
  | "test" => some ([.dictionary], Command.ofShowing .test)
  | "compile" =>
      some ([.dictionary, .outDir],
        plain fun a => .compile (a.value? .dictionary) (a.value? .outDir))
  | "graph" =>
      some ([.dictionary, .out], plain fun a => .graph (a.value? .dictionary) (a.value? .out))
  | _ => none

/-- The command in a list that begins with its name. -/
def Command.ofNamed? : List String → Option Command
  | [] => none
  | name :: arguments => do
      let (options, make) ← commandNamed? name
      let sorted ← Arguments.empty.sort options arguments
      if sorted.help then return .help else if sorted.hasPaths then make sorted else none

/-- Whether help is asked for before the name of a command, and the arguments from that name on;
no other option may stand there. -/
def leadingHelp? : List String → Option (Bool × List String)
  | [] => some (false, [])
  | argument :: rest =>
      match Shape.ofArgument [] argument with
      | .help => (leadingHelp? rest).map fun found => (true, found.2)
      | .endOfOptions => some (false, rest)
      | .positional => some (false, argument :: rest)
      | _ => none

/-- The command that a command line asks for, if it is well formed. Where a name is missing, help
may still be asked for. -/
def Command.ofArguments? (arguments : List String) : Option Command := do
  let (asked, rest) ← leadingHelp? arguments
  if asked then return .help
  else
    match Command.ofNamed? rest, leadingHelp? rest with
    | some command, _ => return command
    | none, some (true, _) => return .help
    | none, _ => none

end Glossary.CommandLine
