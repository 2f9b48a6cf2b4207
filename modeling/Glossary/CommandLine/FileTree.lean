import Glossary.CommandLine.Path

/-!
Files and directories, with one directory in which a program works. Places are named by their steps
down from the root.
-/

namespace Glossary.CommandLine

/-- What stands at the end of a path. -/
inductive Place where
  | missing
  | directory
  | file (bytes : List Nat)
  | unreachable

/-- Why a path leads nowhere, or why nothing can be made at its end. -/
inductive PathFault where
  | missing
  | notDirectory
  | isDirectory
  | taken
  | tooLong
  | unusable
  deriving DecidableEq

structure FileTree where
  files : List (List String × List Nat)
  directories : List (List String)
  home : List String

/-- The greatest number of bytes in the name of a file. -/
def longestName : Nat := 255

/-- The greatest number of bytes in a path. -/
def longestPath : Nat := 4095

/-- A null character cannot stand in a path. -/
def Path.check (p : Path) : Except PathFault Unit :=
  if p.text.toList.contains '\x00' then .error .unusable
  else if longestPath < p.text.utf8ByteSize then .error .tooLong
  else .ok ()

namespace FileTree

/-- The directories that hardly any system lacks. -/
def usualDirectories : List (List String) := [
  ["bin"], ["dev"], ["etc"], ["home"], ["proc"], ["root"], ["tmp"], ["usr"], ["var"]]

/-- A working directory with files in it; beyond it there are only the usual directories and the
file that is always empty. -/
def ofFiles (files : List (List String × List Nat)) : FileTree :=
  let home := ["tmp", "work"]
  { files := files.map (fun f => (home ++ f.1, f.2)) ++ [(["dev", "null"], [])]
    directories := home :: usualDirectories
    home := home }

/-- The files in the working directory, by their steps from there. -/
def filesAtHome (t : FileTree) : List (List String × List Nat) :=
  t.files.filterMap fun f =>
    if t.home.isPrefixOf f.1 then some (f.1.drop t.home.length, f.2) else none

def file? (t : FileTree) (place : List String) : Option (List Nat) :=
  t.files.lookup place

/-- Directories are those that were made and those in which something stands. -/
def isDirectory (t : FileTree) (place : List String) : Bool :=
  place.isEmpty || t.directories.any (place.isPrefixOf ·) ||
    t.files.any fun f => place.isPrefixOf f.1 && f.1 != place

/-- Takes one step down from a directory, or one up to the directory above. -/
def enter (t : FileTree) (here : List String) (step : String) : Except PathFault (List String) :=
  if (t.file? here).isSome then .error .notDirectory
  else if !t.isDirectory here then .error .missing
  else if step = ".." then .ok here.dropLast
  else if longestName < step.utf8ByteSize then .error .tooLong
  else .ok (here ++ [step])

/-- The place at the end of a path, whether or not something stands there. -/
def locate (t : FileTree) (p : Path) : Except PathFault (List String) := do
  p.check
  p.steps.foldlM t.enter (if p.isAbsolute then [] else t.home)

def read (t : FileTree) (p : Path) : Place :=
  match t.locate p with
  | .ok place =>
      match t.file? place with
      | some bytes => .file bytes
      | none => if t.isDirectory place then .directory else .missing
  | .error .tooLong => .unreachable
  | .error _ => .missing

def isDirectoryAt (t : FileTree) (p : Path) : Bool :=
  match t.locate p with
  | .ok place => t.isDirectory place
  | .error _ => false

def makeDirectory (t : FileTree) (p : Path) : Except PathFault FileTree := do
  let place ← t.locate p
  if (t.file? place).isSome || t.isDirectory place then throw .taken
  else return { t with directories := t.directories ++ [place] }

/-- Makes a directory unless it is there already. -/
def requireDirectory (t : FileTree) (p : Path) : Except PathFault FileTree :=
  match t.makeDirectory p with
  | .ok after => .ok after
  | .error fault => if t.isDirectoryAt p then .ok t else .error fault

/-- Makes a directory and those above it that are missing. The steps are given from the last to the
first. -/
def requireDirectories (t : FileTree) (root : String) : List String → Except PathFault FileTree
  | [] => .ok t
  | step :: above =>
      let p : Path := ⟨root, (step :: above).reverse⟩
      match t.requireDirectory p with
      | .error .missing => do (← t.requireDirectories root above).requireDirectory p
      | outcome => outcome

def put (t : FileTree) (place : List String) (bytes : List Nat) : FileTree :=
  if (t.file? place).isSome then
    { t with files := t.files.map fun f => if f.1 == place then (place, bytes) else f }
  else { t with files := t.files ++ [(place, bytes)] }

/-- Writes a file after making the directories above it. -/
def write (t : FileTree) (p : Path) (bytes : List Nat) : Except PathFault FileTree := do
  let t ← t.requireDirectories p.root p.above.steps.reverse
  let place ← t.locate p
  if t.isDirectory place then throw .isDirectory else return t.put place bytes

end FileTree

end Glossary.CommandLine
