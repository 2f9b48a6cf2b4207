import Glossary.Dictionary.Statement
import Glossary.Text.Pattern

/-!
The shape of a statement as a pattern. Letter case is ignored in it, and the subject and the object
are to be as short as they can be.
-/

namespace Glossary.Dictionary

open Text Pattern

/-- Any character but a line feed. -/
def isInLine (c : Char) : Bool :=
  c != '\n'

def blanks : Pattern :=
  repeated .most 0 none isBlank

def gap : Pattern :=
  repeated .most 1 none isBlank

/-- These letters, whatever their case. -/
def spelled : List Char → Pattern
  | [] => nothing
  | letter :: letters => next (one (readsAs letter)) (spelled letters)

/-- Words with gaps between them, and behind them the last word. -/
def phrase : List String → Pattern → Pattern
  | [], last => last
  | w :: ws, last => next (spelled w.toList) (next gap (phrase ws last))

def article : Pattern :=
  next (spelled ['a']) (optional (readsAs 'n'))

def verbPattern : Pattern :=
  either (phrase ["must", "have"] article)
    (either (phrase ["has"] article)
      (either (phrase ["is", "identified"] (spelled "by".toList)) (phrase ["is"] article)))

/-- Blanks and a full stop, each possibly missing, at the end of the text. -/
def stopPattern : Pattern :=
  next (next blanks (optional fun c => c == '.')) textEnd

def objectPattern : Pattern :=
  next (named "object" (repeated .fewest 1 none isInLine)) stopPattern

def predicatePattern : Pattern :=
  next gap (next (named "verb" verbPattern) (next gap objectPattern))

def statementPattern : Pattern :=
  next (named "subject" (repeated .fewest 1 none isInLine)) predicatePattern

/-- The verb whose words are these in small letters. -/
def Verb.named? (ws : List (List Char)) : Option Verb :=
  (verbPhrases.find? fun entry => ws.map lower == entry.1.map String.toList).map Prod.snd

/-- The statement that a match of the pattern makes. -/
def Statement.ofReading (r : Reading) : Statement :=
  ⟨String.ofList (r.group "subject"), Verb.named? (words (r.group "verb")),
    String.ofList (r.group "object")⟩

end Glossary.Dictionary
