/-!
Reading JSON texts.
-/

namespace Glossary.Text

/-- What a JSON text writes. A string is a list of code points, as half of a surrogate pair may
stand in it; numbers are kept as they are written. -/
inductive JsonText where
  | null
  | bool (value : Bool)
  | number (literal : String)
  | str (codes : List Nat)
  | arr (items : List JsonText)
  | obj (fields : List (List Nat × JsonText))

namespace JsonText

def isSpace (c : Char) : Bool :=
  c == ' ' || c == '\t' || c == '\n' || c == '\r'

def skipSpace (cs : List Char) : List Char :=
  cs.dropWhile isSpace

def hexValue? (c : Char) : Option Nat :=
  if c.isDigit then some (c.toNat - 0x30)
  else if 'a' ≤ c && c ≤ 'f' then some (c.toNat - 0x61 + 10)
  else if 'A' ≤ c && c ≤ 'F' then some (c.toNat - 0x41 + 10)
  else none

/-- The 16-bit unit that four hexadecimal digits write. -/
def unit? (a b c d : Char) : Option Nat := do
  return (← hexValue? a) * 0x1000 + (← hexValue? b) * 0x100 + (← hexValue? c) * 0x10 +
    (← hexValue? d)

/-- The character of an escape of one letter. -/
def unescape? : Char → Option Char
  | '"' => some '"'
  | '\\' => some '\\'
  | '/' => some '/'
  | 'b' => some '\x08'
  | 'f' => some '\x0c'
  | 'n' => some '\n'
  | 'r' => some '\r'
  | 't' => some '\t'
  | _ => none

/-- Puts a 16-bit unit in front of a text; a high and a low unit side by side make one character. -/
def consUnit (unit : Nat) : List Nat → List Nat
  | low :: rest =>
      if 0xd800 ≤ unit ∧ unit < 0xdc00 ∧ 0xdc00 ≤ low ∧ low < 0xe000 then
        (0x10000 + (unit - 0xd800) * 0x400 + (low - 0xdc00)) :: rest
      else unit :: low :: rest
  | [] => [unit]

/-- The code points of a string after its opening quote, and the text after its closing one. -/
def readCodes : List Char → Option (List Nat × List Char)
  | '"' :: rest => some ([], rest)
  | '\\' :: 'u' :: a :: b :: c :: d :: rest => do
      let unit ← unit? a b c d
      let (codes, after) ← readCodes rest
      return (consUnit unit codes, after)
  | '\\' :: e :: rest => do
      let c ← unescape? e
      let (codes, after) ← readCodes rest
      return (c.toNat :: codes, after)
  | c :: rest =>
      if c.toNat < 0x20 then none
      else do
        let (codes, after) ← readCodes rest
        return (c.toNat :: codes, after)
  | [] => none

/-- Why a text cannot be read. -/
inductive ReadFault where
  | malformed
  | tooDeep
  deriving DecidableEq

def orMalformed {α : Type} : Option α → Except ReadFault α
  | some a => .ok a
  | none => .error .malformed

def isCharacter (n : Nat) : Bool :=
  n < 0xd800 || 0xdfff < n

/-- The text that the code points of a string make; half of a surrogate pair is no part of a
text. -/
def textOf? (codes : List Nat) : Option String :=
  if codes.all isCharacter then some (String.ofList (codes.map Char.ofNat)) else none

/-- The fraction and exponent after the digits of a number. -/
def readTail (cs : List Char) : Option (List Char × List Char) :=
  let (fraction, afterFraction) :=
    match cs with
    | '.' :: rest =>
        let digits := rest.takeWhile Char.isDigit
        if digits.isEmpty then ([], cs) else ('.' :: digits, rest.drop digits.length)
    | _ => ([], cs)
  match afterFraction with
  | e :: rest =>
      if e == 'e' || e == 'E' then
        let sign := rest.takeWhile fun c => c == '+' || c == '-'
        let digits := (rest.drop sign.length).takeWhile Char.isDigit
        if 1 < sign.length || digits.isEmpty then some (fraction, afterFraction)
        else
          some (fraction ++ e :: sign ++ digits, rest.drop (sign.length + digits.length))
      else some (fraction, afterFraction)
  | [] => some (fraction, [])

/-- How many digits an integer may have. -/
def mostDigits : Nat := 4300

/-- A number without unneeded zeros in front. -/
def readNumber (cs : List Char) : Option (JsonText × List Char) := do
  let unsigned := if cs.head? == some '-' then cs.drop 1 else cs
  let digits :=
    match unsigned with
    | '0' :: _ => ['0']
    | _ => unsigned.takeWhile Char.isDigit
  if digits.isEmpty then none
  else
    let (tail, after) ← readTail (unsigned.drop digits.length)
    if tail.isEmpty && mostDigits < digits.length then none
    else return (.number (String.ofList (cs.take (cs.length - after.length))), after)

/-- Values that are written as words. -/
def wordValues : List (List Char × JsonText) := [
  ("null".toList, .null), ("true".toList, .bool true), ("false".toList, .bool false),
  ("NaN".toList, .number "NaN"), ("Infinity".toList, .number "Infinity"),
  ("-Infinity".toList, .number "-Infinity")]

def readWord (cs : List Char) : Option (JsonText × List Char) :=
  wordValues.findSome? fun (word, value) =>
    if word.isPrefixOf cs then some (value, cs.drop word.length) else none

/-- Of two fields of one name the later value is kept at the earlier place. -/
def setField (fields : List (List Nat × JsonText)) (name : List Nat) (value : JsonText) :
    List (List Nat × JsonText) :=
  if (fields.lookup name).isSome then
    fields.map fun field => if field.1 == name then (name, value) else field
  else fields ++ [(name, value)]

/-- How many arrays and objects may stand inside one another. -/
def deepestNesting : Nat := 970

mutual

/-- A value and the text after it, with at most `depth` levels of nesting; every level and every
item takes a step. -/
def readValue (depth : Nat) : Nat → List Char → Except ReadFault (JsonText × List Char)
  | 0, _ => .error .malformed
  | steps + 1, cs =>
      match skipSpace cs with
      | '"' :: rest => do
          let (codes, after) ← orMalformed (readCodes rest)
          return (.str codes, after)
      | '[' :: rest =>
          match depth with
          | 0 => .error .tooDeep
          | depth + 1 =>
              match skipSpace rest with
              | ']' :: after => .ok (.arr [], after)
              | _ => readItems depth steps [] rest
      | '\x7b' :: rest =>
          match depth with
          | 0 => .error .tooDeep
          | depth + 1 =>
              match skipSpace rest with
              | '\x7d' :: after => .ok (.obj [], after)
              | _ => readFields depth steps [] rest
      | rest => orMalformed ((readWord rest).or (readNumber rest))

/-- The items that are left of an array, after those before them. -/
def readItems (depth : Nat) :
    Nat → List JsonText → List Char → Except ReadFault (JsonText × List Char)
  | 0, _, _ => .error .malformed
  | steps + 1, items, cs => do
      let (item, after) ← readValue depth steps cs
      match skipSpace after with
      | ',' :: rest => readItems depth steps (items ++ [item]) rest
      | ']' :: rest => .ok (.arr (items ++ [item]), rest)
      | _ => .error .malformed

/-- The fields that are left of an object, after those before them. -/
def readFields (depth : Nat) :
    Nat → List (List Nat × JsonText) → List Char → Except ReadFault (JsonText × List Char)
  | 0, _, _ => .error .malformed
  | steps + 1, fields, cs =>
      match skipSpace cs with
      | '"' :: rest => do
          let (name, afterName) ← orMalformed (readCodes rest)
          match skipSpace afterName with
          | ':' :: rest => do
              let (value, after) ← readValue depth steps rest
              match skipSpace after with
              | ',' :: rest => readFields depth steps (setField fields name value) rest
              | '\x7d' :: rest => .ok (.obj (setField fields name value), rest)
              | _ => .error .malformed
          | _ => .error .malformed
      | _ => .error .malformed

end

/-- The value that a whole text writes. -/
def ofText (text : String) : Except ReadFault JsonText := do
  let cs := text.toList
  let (value, after) ← readValue deepestNesting (cs.length + 1) cs
  if (skipSpace after).isEmpty then return value else throw .malformed

end JsonText

end Glossary.Text
