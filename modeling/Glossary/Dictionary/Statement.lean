import Glossary.Text.Blank
import Glossary.Text.Lowercase
import Glossary.Term

/-!
Statements such as `Customer has a Zipcode`: the words before the first verb phrase are the
subject and the words after it the object. A statement needs at least one word on either side.
-/

namespace Glossary.Dictionary

open Text

/-- What a verb phrase says about the term. -/
inductive Verb where
  | relates (relation : Relation)
  | identifiedBy
  deriving DecidableEq

/-- The verb phrases word by word. -/
def verbPhrases : List (List String × Verb) := [
  (["must", "have", "a"], .relates .requires),
  (["must", "have", "an"], .relates .requires),
  (["has", "a"], .relates .composes),
  (["has", "an"], .relates .composes),
  (["is", "identified", "by"], .identifiedBy),
  (["is", "a"], .relates .inherits),
  (["is", "an"], .relates .inherits)]

/-- Whether a character reads as a small ASCII letter when case is ignored. A long s reads as `s`, a
capital I with a dot and a small i without one read as `i`. -/
def readsAs (letter c : Char) : Bool :=
  c.toLower == letter || (letter == 's' && c == 'ſ') ||
    (letter == 'i' && (c == 'İ' || c == 'ı'))

/-- Whether a word reads as the given small ASCII letters when case is ignored. -/
def wordReadsAs : List Char → List Char → Bool
  | [], [] => true
  | letter :: letters, c :: cs => readsAs letter c && wordReadsAs letters cs
  | _, _ => false

/-- The words that stand for the phrase and the tokens after it. -/
def phraseWords? : List String → List Token → Option (List (List Char) × List Token)
  | [], ts => some ([], ts)
  | _ :: _, [] => none
  | w :: ws, t :: ts =>
      if wordReadsAs w.toList t.word then
        (phraseWords? ws ts).map fun found => (t.word :: found.1, found.2)
      else none

/-- A verb phrase at the head of the tokens with at least one word after it. The verb is missing
when a letter of the phrase only reads as the one it should be. -/
def verbAt? (ts : List Token) : Option (Option Verb × List Token) :=
  verbPhrases.findSome? fun phrase =>
    match phraseWords? phrase.1 ts with
    | some (found, object :: rest) =>
        let exact := found.map lower == phrase.1.map String.toList
        some (if exact then some phrase.2 else none, object :: rest)
    | _ => none

/-- A statement cut at its verb. -/
structure Statement where
  subject : String
  verb : Option Verb
  object : String
  deriving DecidableEq

def tokensText (ts : List Token) : List Char :=
  ts.flatMap Token.text

/-- Leaves out a final full stop and the blanks before it, unless nothing would be left. -/
def withoutFullStop (cs : List Char) : List Char :=
  match cs.reverse with
  | '.' :: before =>
      let kept := (before.dropWhile isBlank).reverse
      if kept.isEmpty then cs else kept
  | _ => cs

/-- Looks for the first verb phrase; `before` holds the tokens already passed. -/
def Statement.find? (before : List Token) : List Token → Option Statement
  | [] => none
  | t :: ts =>
      match verbAt? (t :: ts) with
      | some (verb, object) =>
          some {
            subject := String.ofList (tokensText before)
            verb := verb
            object := String.ofList (withoutFullStop (trim (tokensText object))) }
      | none => Statement.find? (before ++ [t]) ts

/-- The statement that a bullet line makes, if its words have the shape of one. -/
def Statement.ofText? (body : List Char) : Option Statement :=
  match tokens body with
  | [] => none
  | first :: rest => Statement.find? [first] rest

end Glossary.Dictionary
