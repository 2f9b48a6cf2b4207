import Glossary.Dictionary.Line
import Glossary.Dictionary.Statement
import Glossary.Text.Lines

/-!
Blocks of a dictionary: a heading with the definition lines and the bullet lines below it.
-/

namespace Glossary.Dictionary

open Text

structure Block where
  name : String
  line : Nat
  definition : List String
  statements : List (Nat × String)
  deriving DecidableEq

/-- A line with something on it. -/
inductive LineShape where
  | heading (name : String)
  | bullet (body : List Char)
  | plain (text : String)

/-- The shape of a line; a blank line has none. -/
def LineShape.ofLine? (line : List Char) : Option LineShape :=
  if line.all isBlank then none
  else
    match heading? line with
    | some name => some (.heading (String.ofList (collapse name)))
    | none =>
        match bullet? line with
        | some body => some (.bullet body)
        | none => some (.plain (String.ofList (trim line)))

/-- The blocks begun so far; the last of them is the one that further lines belong to. -/
structure Outline where
  closed : List Block
  current : Option Block

def Outline.empty : Outline := ⟨[], none⟩

def Outline.blocks (o : Outline) : List Block :=
  o.closed ++ o.current.toList

/-- A statement with no heading above it. -/
structure StrayStatement where
  line : Nat
  body : String

/-- Takes in a line. Before the first heading all lines but statements are passed over. -/
def Outline.addLine (o : Outline) (number : Nat) (line : List Char) :
    Except StrayStatement Outline :=
  match LineShape.ofLine? line, o.current with
  | none, _ => .ok o
  | some (.heading name), _ => .ok ⟨o.blocks, some ⟨name, number, [], []⟩⟩
  | some (.bullet body), none =>
      if (Statement.ofText? body).isSome then .error ⟨number, String.ofList body⟩ else .ok o
  | some (.plain _), none => .ok o
  | some (.bullet body), some block =>
      .ok { o with
        current := some { block with
          statements := block.statements ++ [(number, String.ofList body)] } }
  | some (.plain text), some block =>
      .ok { o with current := some { block with definition := block.definition ++ [text] } }

/-- Takes in lines that are numbered from `number` on. -/
def Outline.addLines (o : Outline) : Nat → List (List Char) → Except StrayStatement Outline
  | _, [] => .ok o
  | number, line :: rest => do
      let next ← o.addLine number line
      next.addLines (number + 1) rest

/-- The blocks of a text, in order. -/
def blocks (text : List Char) : Except StrayStatement (List Block) :=
  (Outline.empty.addLines 1 (lines text)).map Outline.blocks

end Glossary.Dictionary
