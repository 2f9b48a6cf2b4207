/-!
JSON values and two written forms of them, both with an indentation of two blanks a level: one keeps
every character that need not be escaped, one keeps printable ASCII only.
-/

namespace Glossary.Text

inductive Json where
  | null
  | bool (value : Bool)
  | int (value : Int)
  | str (value : String)
  | arr (items : List Json)
  | obj (fields : List (String × Json))
  deriving Inhabited

namespace Json

def hexDigit (n : Nat) : Char :=
  if n < 10 then Char.ofNat (0x30 + n) else Char.ofNat (0x61 + (n - 10))

/-- The escape of a 16-bit unit. -/
def unitEscape (n : Nat) : List Char :=
  ['\\', 'u', hexDigit (n / 0x1000 % 16), hexDigit (n / 0x100 % 16), hexDigit (n / 0x10 % 16),
    hexDigit (n % 16)]

/-- The escape of a character; beyond the first 65536 code points it has two units. -/
def codeEscape (n : Nat) : List Char :=
  if n < 0x10000 then unitEscape n
  else
    unitEscape (0xd800 + (n - 0x10000) / 0x400) ++ unitEscape (0xdc00 + (n - 0x10000) % 0x400)

/-- The characters with a short escape of their own. -/
def shortEscape? (c : Char) : Option (List Char) :=
  match c with
  | '"' => some ['\\', '"']
  | '\\' => some ['\\', '\\']
  | '\n' => some ['\\', 'n']
  | '\r' => some ['\\', 'r']
  | '\t' => some ['\\', 't']
  | '\x08' => some ['\\', 'b']
  | '\x0c' => some ['\\', 'f']
  | _ => none

/-- Which characters without a short escape are written as they are. -/
inductive Charset where
  | unicode
  | ascii

def Charset.keeps : Charset → Char → Bool
  | .unicode, c => 0x20 ≤ c.toNat
  | .ascii, c => 0x20 ≤ c.toNat && c.toNat < 0x7f

def escapeChar (charset : Charset) (c : Char) : List Char :=
  match shortEscape? c with
  | some escape => escape
  | none => if charset.keeps c then [c] else codeEscape c.toNat

def quoted (charset : Charset) (s : String) : String :=
  String.ofList ('"' :: s.toList.flatMap (escapeChar charset) ++ ['"'])

def newline (level : Nat) : String :=
  String.ofList ('\n' :: List.replicate (2 * level) ' ')

/-- Items on lines of their own between two brackets. -/
def enclose (opening closing : String) (level : Nat) (items : List String) : String :=
  if items.isEmpty then opening ++ closing
  else
    opening ++ newline (level + 1) ++ ("," ++ newline (level + 1)).intercalate items ++
      newline level ++ closing

mutual

def renderAt (charset : Charset) (level : Nat) : Json → String
  | .null => "null"
  | .bool value => if value then "true" else "false"
  | .int value => toString value
  | .str value => quoted charset value
  | .arr items => enclose "[" "]" level (renderItems charset (level + 1) items)
  | .obj fields => enclose "\x7b" "\x7d" level (renderFields charset (level + 1) fields)

def renderItems (charset : Charset) (level : Nat) : List Json → List String
  | [] => []
  | item :: rest => renderAt charset level item :: renderItems charset level rest

def renderFields (charset : Charset) (level : Nat) : List (String × Json) → List String
  | [] => []
  | (name, value) :: rest =>
      (quoted charset name ++ ": " ++ renderAt charset level value) ::
        renderFields charset level rest

end

def render (charset : Charset) (value : Json) : String :=
  renderAt charset 0 value

/-- An absent text is written as `null`. -/
def optional (text : Option String) : Json :=
  (text.map str).getD null

end Json

end Glossary.Text
