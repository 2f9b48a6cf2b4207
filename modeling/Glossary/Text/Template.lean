import Glossary.Text.Template.Subject

/-!
Templates: texts with replacement fields between braces. A brace that is text is written twice. A
field names the value to put in its place; an index may pick one character of the value, a
conversion may quote it, and a layout after a colon may cut and pad it.
-/

namespace Glossary.Text

namespace Template

/-- The parts of a field: its name with what follows it, the conversion, and the layout. -/
structure Field where
  name : List Char
  conversion : Option Char
  layout : List Char

/-- A stretch of a template; after a fault there is nothing more. -/
inductive Piece where
  | char (c : Char)
  | field (f : Field)
  | fault

/-- What is being read; characters read so far are in reverse order. -/
inductive State where
  | text
  | closing
  | opening
  | name (read : List Char)
  | index (read : List Char)
  | conversion (name : List Char)
  | converted (name : List Char) (conversion : Char)
  | layout (name : List Char) (conversion : Option Char) (depth : Nat) (read : List Char)

/-- Reads one character of a field name. -/
def nameStep (read : List Char) (c : Char) : Option State × List Piece :=
  match c with
  | '{' => (none, [.fault])
  | '[' => (some (.index (c :: read)), [])
  | '}' => (some .text, [.field ⟨read.reverse, none, []⟩])
  | ':' => (some (.layout read.reverse none 0 []), [])
  | '!' => (some (.conversion read.reverse), [])
  | _ => (some (.name (c :: read)), [])

/-- Reads one character: the next state, unless a fault ends the reading, and the pieces that are
complete with it. -/
def step : State → Char → Option State × List Piece
  | .text, '{' => (some .opening, [])
  | .text, '}' => (some .closing, [])
  | .text, c => (some .text, [.char c])
  | .closing, '}' => (some .text, [.char '}'])
  | .closing, _ => (none, [.fault])
  | .opening, '{' => (some .text, [.char '{'])
  | .opening, c => nameStep [] c
  | .name read, c => nameStep read c
  | .index read, ']' => (some (.name (']' :: read)), [])
  | .index read, c => (some (.index (c :: read)), [])
  | .conversion name, c => (some (.converted name c), [])
  | .converted name conversion, '}' => (some .text, [.field ⟨name, some conversion, []⟩])
  | .converted name conversion, ':' => (some (.layout name (some conversion) 0 []), [])
  | .converted _ _, _ => (none, [.fault])
  | .layout name conversion depth read, '{' =>
      (some (.layout name conversion (depth + 1) ('{' :: read)), [])
  | .layout name conversion 0 read, '}' =>
      (some .text, [.field ⟨name, conversion, read.reverse⟩])
  | .layout name conversion (depth + 1) read, '}' =>
      (some (.layout name conversion depth ('}' :: read)), [])
  | .layout name conversion depth read, c =>
      (some (.layout name conversion depth (c :: read)), [])

/-- The pieces of a template. -/
def pieces : State → List Char → List Piece
  | .text, [] => []
  | _, [] => [.fault]
  | state, c :: rest =>
      match step state c with
      | (none, done) => done
      | (some next, done) => done ++ pieces next rest

/-- Follows the names and indices after the name of a field. -/
def Subject.follow (s : Subject) : Nat → List Char → Except Fault Subject
  | _, [] => .ok s
  | 0, _ => .error .malformed
  | steps + 1, '[' :: rest => do
      let index := rest.takeWhile fun c => c != ']'
      match rest.drop index.length with
      | [] => .error .malformed
      | _ :: after =>
          if index.isEmpty then .error .malformed
          else (← s.index index).follow steps after
  | steps + 1, '.' :: rest => do
      let name := rest.takeWhile fun c => c != '.' && c != '['
      if name.isEmpty then .error .malformed
      else (← s.member (String.ofList name)).follow steps (rest.drop name.length)
  | _, _ => .error .malformed

/-- What the name of a field stands for, when `field` is the only name there is. -/
def lookup (field : String) (value : List Char) (name : List Char) : Except Fault Subject := do
  let first := name.takeWhile fun c => c != '.' && c != '['
  let rest := name.drop first.length
  let number ← number? first
  if first.isEmpty || number.isSome then .error .unnamedField
  else if String.ofList first ≠ field then .error (.unknownField (String.ofList first))
  else (Subject.text value).follow rest.length rest

/-- A conversion makes a text of any value. -/
def convert (conversion : Option Char) (s : Subject) : Except Fault Subject :=
  match conversion with
  | none => .ok s
  | some 's' => .ok (.text s.shown)
  | some 'r' => .ok (.text (s.inQuotes false))
  | some 'a' => .ok (.text (s.inQuotes true))
  | some _ => .error .malformed

def isAlignment (c : Char) : Bool :=
  c == '<' || c == '>' || c == '^' || c == '='

/-- The alignment that a layout begins with, the character that fills up, and the rest. -/
def alignment : List Char → Option Char × Option Char × List Char
  | fill :: align :: rest =>
      if isAlignment align then (some align, some fill, rest)
      else if isAlignment fill then (some fill, none, align :: rest)
      else (none, none, fill :: align :: rest)
  | [align] => if isAlignment align then (some align, none, []) else (none, none, [align])
  | [] => (none, none, [])

/-- Fills a value up to a width. -/
def pad (align fill : Char) (width : Nat) (value : List Char) : List Char :=
  let missing := width - value.length
  let before := if align == '>' then missing else if align == '^' then missing / 2 else 0
  List.replicate before fill ++ value ++ List.replicate (missing - before) fill

/-- A width from which on a filled text would be too long to be held. -/
def tooGreatWidth : Nat := Nat.pow 2 30

/-- Cuts and pads a text as a layout says: alignment, width, precision, and the letter `s`. -/
def arrangeText (layout cs : List Char) : Except Fault (List Char) := do
  let (align, fill, sized) := alignment layout
  let zero := fill.isNone && sized.head? == some '0'
  let widthDigits := sized.takeWhile isDecimalDigit
  let width ← number? widthDigits
  let afterWidth := sized.drop widthDigits.length
  let precisionDigits :=
    match afterWidth with
    | '.' :: rest => some (rest.takeWhile isDecimalDigit)
    | _ => none
  let precision ← number? (precisionDigits.getD [])
  let letter := afterWidth.drop ((precisionDigits.map fun ds => ds.length + 1).getD 0)
  if align == some '=' || precisionDigits.any List.isEmpty || !(letter == [] || letter == ['s'])
  then .error .malformed
  else if tooGreatWidth ≤ width.getD 0 then .error .tooWide
  else
    let cut :=
      match precision with
      | some n => cs.take n
      | none => cs
    return pad (align.getD '<') (if zero then '0' else fill.getD ' ') (width.getD 0) cut

/-- Only texts can be laid out. -/
def arrange (layout : List Char) : Subject → Except Fault (List Char)
  | .text cs => arrangeText layout cs
  | s => if layout.isEmpty then .ok s.shown else .error .noLayout

/-- Fills in a template. A layout may itself hold fields, but theirs may not. -/
def fillWithin (field : String) (value : List Char) : Nat → List Char → Except Fault (List Char)
  | 0, _ => .error .malformed
  | depth + 1, template =>
      (pieces .text template).foldlM (fun done piece =>
        match piece with
        | .char c => .ok (done ++ [c])
        | .fault => .error .malformed
        | .field f => do
            let found ← lookup field value f.name
            let converted ← convert f.conversion found
            let layout ←
              if f.layout.contains '{' then fillWithin field value depth f.layout
              else .ok f.layout
            let placed ← arrange layout converted
            return done ++ placed) []

/-- The template with the value in place of every field with this name. -/
def fill (field value template : String) : Except Fault String :=
  (fillWithin field value.toList 2 template.toList).map String.ofList

end Template

end Glossary.Text
