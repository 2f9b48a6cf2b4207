/-!
Patterns of texts. A pattern reads a beginning of a text in different ways, which come in an order
of preference; the match of a whole pattern is the first way that a search with backtracking finds.
-/

namespace Glossary.Text

/-- Which numbers of repetitions are tried first. -/
inductive Preference where
  | fewest
  | most
  deriving DecidableEq

def Preference.order {α : Type} : Preference → List α → List α
  | fewest, as => as
  | most, as => as.reverse

inductive Pattern where
  | nothing
  | repeated (preference : Preference) (least : Nat) (greatest : Option Nat)
      (admits : Char → Bool)
  | next (first second : Pattern)
  | either (first second : Pattern)
  | named (name : String) (inner : Pattern)
  | textEnd

/-- One way to read the beginning of a text: the texts of the named parts, what was taken, and what
is left. -/
structure Reading where
  groups : List (String × List Char)
  taken : List Char
  rest : List Char
  deriving DecidableEq

namespace Reading

def andThen (first second : Reading) : Reading :=
  ⟨first.groups ++ second.groups, first.taken ++ second.taken, second.rest⟩

def group (r : Reading) (name : String) : List Char :=
  (r.groups.lookup name).getD []

end Reading

namespace Pattern

/-- The lengths of the beginnings that a repetition may take. -/
def counts (least : Nat) (greatest : Option Nat) (admits : Char → Bool) (cs : List Char) :
    List Nat :=
  (List.range (cs.length + 1)).filter fun n =>
    least ≤ n && greatest.all (fun most => n ≤ most) && (cs.take n).all admits

/-- The ways to read a beginning of the text, the preferred ones first. A text also ends before a
last line feed. -/
def readings : Pattern → List Char → List Reading
  | nothing, cs => [⟨[], [], cs⟩]
  | repeated preference least greatest admits, cs =>
      (preference.order (counts least greatest admits cs)).map fun n =>
        ⟨[], cs.take n, cs.drop n⟩
  | next p q, cs => (p.readings cs).flatMap fun r => (q.readings r.rest).map r.andThen
  | either p q, cs => p.readings cs ++ q.readings cs
  | named name p, cs =>
      (p.readings cs).map fun r => { r with groups := (name, r.taken) :: r.groups }
  | textEnd, cs => if cs = [] ∨ cs = ['\n'] then [⟨[], [], cs⟩] else []

/-- The preferred way to read the beginning of the text. -/
def match? (p : Pattern) (cs : List Char) : Option Reading :=
  (p.readings cs).head?

def one (admits : Char → Bool) : Pattern :=
  repeated .most 1 (some 1) admits

def optional (admits : Char → Bool) : Pattern :=
  repeated .most 0 (some 1) admits

end Pattern

end Glossary.Text
