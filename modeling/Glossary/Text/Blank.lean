/-!
Blank characters, and the words that stand between them.
-/

namespace Glossary.Text

/-- The code points that separate words: the Unicode white space characters and the four information
separators of ASCII. -/
def blankCodes : List Nat := [
  0x9, 0xa, 0xb, 0xc, 0xd, 0x1c, 0x1d, 0x1e, 0x1f, 0x20, 0x85, 0xa0, 0x1680, 0x2000, 0x2001, 0x2002,
  0x2003, 0x2004, 0x2005, 0x2006, 0x2007, 0x2008, 0x2009, 0x200a, 0x2028, 0x2029, 0x202f, 0x205f,
  0x3000]

def isBlank (c : Char) : Bool :=
  blankCodes.contains c.toNat

/-- The maximal stretches of elements that satisfy `keep`, in order. -/
def runs {α : Type} (keep : α → Bool) : List α → List (List α)
  | [] => []
  | a :: rest =>
      if keep a then
        match runs keep rest, rest.head?.any keep with
        | run :: more, true => (a :: run) :: more
        | more, _ => [a] :: more
      else runs keep rest

/-- The maximal stretches of characters that are not blank. -/
def words (cs : List Char) : List (List Char) :=
  runs (fun c => !isBlank c) cs

def joinWords (ws : List (List Char)) : List Char :=
  [' '].intercalate ws

/-- The words of a text with single spaces between them. -/
def collapse (cs : List Char) : List Char :=
  joinWords (words cs)

def trimStart (cs : List Char) : List Char :=
  cs.dropWhile isBlank

def trimEnd (cs : List Char) : List Char :=
  (cs.reverse.dropWhile isBlank).reverse

/-- The text without the blanks at its two ends. -/
def trim (cs : List Char) : List Char :=
  trimEnd (trimStart cs)

/-- A word together with the blanks in front of it. -/
structure Token where
  gap : List Char
  word : List Char

def Token.text (t : Token) : List Char :=
  t.gap ++ t.word

/-- The words of a text with the blanks before each; blanks after the last word are dropped. -/
def tokens : List Char → List Token
  | [] => []
  | c :: rest =>
      if isBlank c then
        match tokens rest with
        | t :: ts => { t with gap := c :: t.gap } :: ts
        | [] => []
      else
        match tokens rest, rest.head?.any (fun d => !isBlank d) with
        | t :: ts, true => { t with word := c :: t.word } :: ts
        | ts, _ => ⟨[], [c]⟩ :: ts

end Glossary.Text
