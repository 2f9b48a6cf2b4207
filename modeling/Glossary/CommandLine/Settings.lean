import Glossary.CommandLine.FileTree
import Glossary.CommandLine.Variables
import Glossary.Compilation
import Glossary.Text.JsonReader
import Glossary.Text.Utf8

/-!
Settings, which variables of the environment and of a file describe.
-/

namespace Glossary.CommandLine

open Text

/-- Why settings are not accepted. -/
inductive SettingsFault where
  | malformedJson
  | nestedTooDeep
  | invalidValue
  | undecodable
  | unusableVariable
  deriving DecidableEq

/-- The settings, the places to work on, and those extra primitive types whose SQL type holds half
of a surrogate pair, so that it cannot be written out. -/
structure Configuration where
  settings : Settings
  unwritable : List String
  dictionary : Path
  outDir : Path

/-- The value of a setting, whose name is given in small letters. -/
def setting? (vars : Variables) (name : String) : Option String :=
  (vars.reverse.find? fun v => lowerName v.1 == name).map Prod.snd

def asciiLower (s : String) : String :=
  s.map Char.toLower

def boolOfText? (text : String) : Option Bool :=
  let word := asciiLower text
  if ["true", "1", "on", "yes", "t", "y"].contains word then some true
  else if ["false", "0", "off", "no", "f", "n"].contains word then some false
  else none

/-! ## Whole numbers -/

/-- The blanks that may surround a number: white space without the information separators. -/
def isNumberBlank (c : Char) : Bool :=
  isBlank c && !(0x1c ≤ c.toNat && c.toNat ≤ 0x1f)

def trimNumber (cs : List Char) : List Char :=
  ((cs.dropWhile isNumberBlank).reverse.dropWhile isNumberBlank).reverse

/-- Whether a number can begin with this character once its needless zeros are gone. -/
def beginsNumber (c : Char) : Bool :=
  ('1' ≤ c && c ≤ '9') || c == '-'

/-- Drops the zeros and underscores that follow a zero; `last` is the one dropped last. -/
def dropZeros (last : Char) : List Char → Option (List Char)
  | [] => some [last]
  | c :: rest =>
      if c == '0' || c == '_' then dropZeros c rest
      else if beginsNumber c then some (c :: rest)
      else if c == '.' then some (last :: c :: rest)
      else none

/-- Drops needless zeros; a minus sign may come after them. -/
def withoutZeros : List Char → Option (List Char)
  | [] => none
  | '0' :: rest => dropZeros '0' rest
  | c :: rest => if beginsNumber c then some (c :: rest) else none

/-- Drops a plus sign, which no minus sign may follow, and the needless zeros after a sign. -/
def withoutNeedless : List Char → Option (List Char)
  | '+' :: '-' :: _ => none
  | '+' :: rest => withoutZeros rest
  | '-' :: rest => (withoutZeros rest).map ('-' :: ·)
  | cs => withoutZeros cs

/-- Drops a point with nothing but zeros after it. -/
def withoutFraction (cs : List Char) : Option (List Char) :=
  match cs.dropWhile fun c => c != '.' with
  | [] => some cs
  | _ :: zeros =>
      if zeros.isEmpty || zeros.any fun c => c != '0' then none
      else some (cs.takeWhile fun c => c != '.')

/-- Drops underscores, which stand one by one and not at the ends. -/
def withoutUnderscores (cs : List Char) : Option (List Char) :=
  let groups := runs (fun c => c != '_') cs
  if ['_'].intercalate groups = cs then some groups.flatten else none

/-- The greatest number of characters in a number. -/
def longestNumber : Nat := 4300

def natOf (digits : List Char) : Nat :=
  digits.foldl (fun n c => 10 * n + (c.toNat - 0x30)) 0

/-- A number in its shortest form: a minus sign or none, and digits. -/
def plainInt? (cs : List Char) : Option Int :=
  let digits := if cs.head? == some '-' then cs.drop 1 else cs
  if digits.isEmpty || !digits.all Char.isDigit then none
  else if digits.head? == some '0' && digits != ['0'] then none
  else if longestNumber < cs.length then none
  else some (if cs.head? == some '-' then -(natOf digits : Int) else natOf digits)

/-- A whole number that a person may have written: with blanks around it, a sign, needless zeros,
underscores between digits, and a fraction of zeros. -/
def intOfText? (text : String) : Option Int := do
  let whole ← withoutFraction (← withoutNeedless (trimNumber text.toList))
  plainInt? (← withoutUnderscores whole)

/-! ## Configurations -/

/-- The strings of an object that holds nothing else. -/
def stringFields? : JsonText → Option (List (List Nat × List Nat))
  | .obj fields => fields.mapM fun field =>
      match field.2 with
      | .str codes => some (field.1, codes)
      | _ => none
  | _ => none

/-- The primitive types with their SQL types, where they are named by texts; no dictionary could use
another. The second list names those whose SQL type is no text. -/
def extraPrimitives (fields : List (List Nat × List Nat)) :
    List (String × String) × List String :=
  let named := fields.filterMap fun field =>
    (JsonText.textOf? field.1).map fun name => (name, JsonText.textOf? field.2)
  (named.map fun entry => (entry.1, entry.2.getD ""),
    (named.filter fun entry => entry.2.isNone).map Prod.fst)

/-- A value that is read from a setting, or the standard one when it is not set. -/
def settingOr {α : Type} (vars : Variables) (name : String) (standard : α)
    (read : String → Option α) : Except SettingsFault α :=
  match setting? vars name with
  | none => .ok standard
  | some text =>
      match read text with
      | some value => .ok value
      | none => .error .invalidValue

/-- The JSON value of a setting; null is none. -/
def jsonSetting? (vars : Variables) (name : String) : Except SettingsFault (Option JsonText) :=
  match (setting? vars name).map JsonText.ofText with
  | none => .ok none
  | some (.ok .null) => .ok none
  | some (.ok value) => .ok (some value)
  | some (.error .malformed) => .error .malformedJson
  | some (.error .tooDeep) => .error .nestedTooDeep

/-- The configuration that variables describe. -/
def Configuration.ofVariables (vars : Variables) : Except SettingsFault Configuration := do
  let extra ← jsonSetting? vars "extra_primitives"
  let extraFields ←
    match extra with
    | none => .ok []
    | some value =>
        match stringFields? value with
        | some fields => .ok fields
        | none => .error .invalidValue
  let identifierType ← settingOr vars "default_identifier_type" "String" some
  let strict ← settingOr vars "strict_identifiers" false boolOfText?
  let workers ← settingOr vars "max_workers" none fun text => (intOfText? text).map some
  let inlineViews ← settingOr vars "inline_ancestor_views" true boolOfText?
  let dictionary ← settingOr vars "dictionary_path" "dictionary.md" some
  let outDir ← settingOr vars "output_dir" "output" some
  let (primitives, unwritable) := extraPrimitives extraFields
  return {
    settings := ⟨identifierType, strict, workers, inlineViews, primitives⟩
    unwritable := unwritable
    dictionary := .ofText dictionary
    outDir := .ofText outDir }

/-- The statements of a file of variables; there are none where no file is or none is to be read. -/
def statementsAt (vars : Variables) : Place → Except SettingsFault FileStatements
  | .file bytes =>
      if ignoresFiles vars then .ok []
      else
        match Utf8.decode bytes with
        | .ok cs => .ok (statementsOfFile cs)
        | .error _ => .error .undecodable
  | _ => .ok []

/-- The configuration from variables and the statements of a file. -/
def Configuration.ofStatements (vars : Variables) (statements : FileStatements) :
    Except SettingsFault Configuration :=
  let added := addedBy vars statements
  if added.all canBeSet then ofVariables (vars ++ added) else .error .unusableVariable

end Glossary.CommandLine
