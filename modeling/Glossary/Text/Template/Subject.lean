import Glossary.Text.DecimalDigit
import Glossary.Text.Quoted

/-!
What the field of a template can stand for: a text, or what can be reached from it by names and
indices, namely the kind of a value and the kinds that it refines.
-/

namespace Glossary.Text.Template

/-- Why a template cannot be filled in. -/
inductive Fault where
  | malformed
  | unknownField (name : String)
  | unnamedField
  | indexBeyondEnd
  | noAttribute
  | badIndex
  | noLayout
  | tooWide
  deriving DecidableEq

/-- The greatest number that a template may hold. -/
def greatestNumber : Nat := Nat.pow 2 63 - 1

/-- Reads on after the digits of `n`. A number that grows too great is refused before the text after
it is looked at. -/
def numberFrom (n : Nat) : List Char → Except Fault (Option Nat)
  | [] => .ok (some n)
  | c :: rest =>
      match digitValue? c with
      | none => .ok none
      | some d =>
          if greatestNumber < 10 * n + d then .error .malformed
          else numberFrom (10 * n + d) rest

/-- The number that a text of decimal digits writes. -/
def number? (cs : List Char) : Except Fault (Option Nat) :=
  if cs.isEmpty then .ok none else numberFrom 0 cs

/-- The kinds of values. -/
inductive Kind where
  | text
  | kind
  | sequence
  | nothing
  | value
  deriving DecidableEq

namespace Kind

def name : Kind → String
  | text => "str"
  | kind => "type"
  | sequence => "tuple"
  | nothing => "NoneType"
  | value => "object"

/-- What a user is told about a kind, line by line. -/
def noteLines : Kind → List String
  | text => [
      "str(object='') -> str",
      "str(bytes_or_buffer[, encoding[, errors]]) -> str",
      "",
      "Create a new string object from the given object. If encoding or",
      "errors is specified, then the object must expose a data buffer",
      "that will be decoded using the given encoding and error handler.",
      "Otherwise, returns the result of object.__str__() (if defined)",
      "or repr(object).",
      "encoding defaults to sys.getdefaultencoding().",
      "errors defaults to 'strict'."]
  | kind => [
      "type(object) -> the object's type",
      "type(name, bases, dict, **kwds) -> a new type"]
  | sequence => [
      "Built-in immutable sequence.",
      "",
      "If no argument is given, the constructor returns an empty tuple.",
      "If iterable is specified the tuple is initialized from iterable's items.",
      "",
      "If the argument is a tuple, the return value is the same object."]
  | nothing => []
  | value => [
      "The base class of the class hierarchy.",
      "",
      "When called, it accepts no arguments and returns a new featureless",
      "instance that has no instance attributes and cannot be given any.",
      ""]

/-- The kinds that a kind refines, with itself first; every value is of the kind `value`. -/
def lineage : Kind → List Kind
  | value => [value]
  | k => [k, value]

def shown (k : Kind) : List Char :=
  "<class '".toList ++ k.name.toList ++ "'>".toList

end Kind

/-- What a field stands for. -/
inductive Subject where
  | text (cs : List Char)
  | kind (k : Kind)
  | kinds (ks : List Kind)
  | nothing
  deriving DecidableEq

namespace Subject

def kindOf : Subject → Kind
  | text _ => .text
  | kind _ => .kind
  | kinds _ => .sequence
  | nothing => .nothing

/-- A list stands in parentheses, and a single item has a comma after it. -/
def shown : Subject → List Char
  | text cs => cs
  | kind k => k.shown
  | kinds [k] => '(' :: k.shown ++ [',', ')']
  | kinds ks => '(' :: [',', ' '].intercalate (ks.map Kind.shown) ++ [')']
  | nothing => "None".toList

/-- The way a value is shown with quotes around texts. -/
def inQuotes (asciiOnly : Bool) : Subject → List Char
  | text cs => quoted asciiOnly cs
  | s => s.shown

/-- The note on a kind; there is none without lines. -/
def noteOn (k : Kind) : Subject :=
  if k.noteLines.isEmpty then nothing else text ("\n".intercalate k.noteLines).toList

/-- What a kind tells about itself. -/
def memberOfKind? (k : Kind) : String → Option Subject
  | "__name__" => some (text k.name.toList)
  | "__qualname__" => some (text k.name.toList)
  | "__module__" => some (text "builtins".toList)
  | "__mro__" => some (kinds k.lineage)
  | "__bases__" => some (kinds k.lineage.tail)
  | "__base__" => some ((k.lineage.tail.head?.map kind).getD nothing)
  | _ => none

/-- What a name after a point leads to. -/
def member (s : Subject) (name : String) : Except Fault Subject :=
  if name = "__class__" then .ok (kind s.kindOf)
  else
    match s, name with
    | kind k, "__doc__" => .ok (noteOn k)
    | s, "__doc__" => .ok (noteOn s.kindOf)
    | kind k, _ => ((memberOfKind? k name).map .ok).getD (.error .noAttribute)
    | _, _ => .error .noAttribute

/-- The item at a place. -/
def item (s : Subject) (n : Nat) : Except Fault Subject :=
  let at? {α : Type} (items : List α) (subject : α → Subject) : Except Fault Subject :=
    ((items[n]?.map subject).map .ok).getD (.error .indexBeyondEnd)
  match s with
  | text cs => at? cs fun c => text [c]
  | kinds ks => at? ks kind
  | kind _ => .error .badIndex
  | nothing => .error .badIndex

/-- What an index between brackets leads to. -/
def index (s : Subject) (cs : List Char) : Except Fault Subject := do
  match ← number? cs with
  | some n => s.item n
  | none => .error .badIndex

end Subject

end Glossary.Text.Template
