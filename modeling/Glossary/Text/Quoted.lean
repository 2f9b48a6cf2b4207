import Glossary.Text.Printable

/-!
Texts between quotes, with escapes for what cannot be shown.
-/

namespace Glossary.Text

/-- At least `width` hexadecimal digits. -/
def hexDigits (width n : Nat) : List Char :=
  let ds := Nat.toDigits 16 n
  List.replicate (width - ds.length) '0' ++ ds

/-- A character by its code point, with as few digits as its size allows: two, four or eight. -/
def codeEscape (c : Char) : List Char :=
  if c.toNat < 0x100 then '\\' :: 'x' :: hexDigits 2 c.toNat
  else if c.toNat < 0x10000 then '\\' :: 'u' :: hexDigits 4 c.toNat
  else '\\' :: 'U' :: hexDigits 8 c.toNat

/-- A character inside a quoted text. -/
def quotedChar (quote : Char) (asciiOnly : Bool) (c : Char) : List Char :=
  if c == quote || c == '\\' then ['\\', c]
  else if c == '\n' then ['\\', 'n']
  else if c == '\r' then ['\\', 'r']
  else if c == '\t' then ['\\', 't']
  else if !isPrintable c || (asciiOnly && 0x7f < c.toNat) then codeEscape c
  else [c]

/-- A text between single quotes, or between double quotes when it has single quotes only. -/
def quoted (asciiOnly : Bool) (cs : List Char) : List Char :=
  let quote := if cs.contains '\x27' && !cs.contains '"' then '"' else '\x27'
  quote :: cs.flatMap (quotedChar quote asciiOnly) ++ [quote]

end Glossary.Text
