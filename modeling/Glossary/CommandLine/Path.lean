import Glossary.Text.Blank

/-!
Paths of files and directories.
-/

namespace Glossary.CommandLine

/-- A path by the slashes in front of it and its steps; steps that lead nowhere are left out. -/
structure Path where
  root : String
  steps : List String
  deriving DecidableEq

namespace Path

/-- Two slashes in front are kept, and more are one. -/
def rootOf (cs : List Char) : String :=
  match (cs.takeWhile fun c => c == '/').length with
  | 0 => ""
  | 2 => "//"
  | _ => "/"

/-- The path that a text names; the empty text names the place itself. -/
def ofText (text : String) : Path :=
  ⟨rootOf text.toList,
    ((Text.runs (fun c => c != '/') text.toList).map String.ofList).filter fun step =>
      step != "."⟩

def isAbsolute (p : Path) : Bool :=
  p.root != ""

def text (p : Path) : String :=
  if p.root = "" && p.steps.isEmpty then "." else p.root ++ "/".intercalate p.steps

/-- The directory that a path leads through last. -/
def above (p : Path) : Path :=
  { p with steps := p.steps.dropLast }

/-- The path of something inside a directory. -/
def inside (p : Path) (steps : List String) : Path :=
  { p with steps := p.steps ++ steps }

end Path

end Glossary.CommandLine
