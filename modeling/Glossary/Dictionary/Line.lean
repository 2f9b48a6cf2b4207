import Glossary.Text.Blank

/-!
The shapes of a line: a heading opens a term, a bullet makes a statement, other text is definition.
-/

namespace Glossary.Dictionary

open Text

/-- Whether the text is blanks, number signs and blanks, each possibly missing. -/
def isClosing (cs : List Char) : Bool :=
  (((trimStart cs).dropWhile fun c => c == '#').all isBlank)

/-- The shortest non-empty beginning of a text whose remainder closes the heading. -/
def headingName : List Char → List Char
  | [] => []
  | c :: rest => if isClosing rest then [c] else c :: headingName rest

/-- The name in a heading: at most three blanks, one to six number signs, blanks and the name,
which closing number signs may follow. Two blanks with nothing after them are a heading with a
blank name. -/
def heading? (line : List Char) : Option (List Char) :=
  let marked := trimStart line
  let marks := marked.takeWhile fun c => c == '#'
  let tail := marked.dropWhile fun c => c == '#'
  let name := trimStart tail
  let gap := tail.length - name.length
  if 3 < line.length - marked.length || marks.isEmpty || 6 < marks.length || gap == 0 then none
  else if name.isEmpty then (if 2 ≤ gap then some [' '] else none)
  else some (headingName name)

def isBulletMark (c : Char) : Bool :=
  c == '-' || c == '*' || c == '+'

/-- The text of a bullet line: a hyphen, an asterisk or a plus sign with at least one blank after
it. -/
def bullet? (line : List Char) : Option (List Char) :=
  match trimStart line with
  | mark :: blank :: rest =>
      if isBulletMark mark && isBlank blank then some (trim rest) else none
  | _ => none

end Glossary.Dictionary
