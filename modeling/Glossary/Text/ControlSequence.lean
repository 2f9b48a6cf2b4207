/-!
Control sequences of terminals: an escape character, a bracket, parameters, and a letter. Texts that
are not shown on a terminal go without them.
-/

namespace Glossary.Text

def isParameter (c : Char) : Bool :=
  c == ';' || c == '?' || c.isDigit

/-- How many characters of a control sequence follow its escape character. -/
def sequenceLength? : List Char → Option Nat
  | '[' :: rest =>
      let parameters := rest.takeWhile isParameter
      match rest.drop parameters.length with
      | c :: _ => if c.isAlpha then some (parameters.length + 2) else none
      | [] => none
  | _ => none

/-- Drops the given number of characters and all control sequences after them. -/
def dropSequences : Nat → List Char → List Char
  | _, [] => []
  | skip + 1, _ :: rest => dropSequences skip rest
  | 0, c :: rest =>
      match if c == '\x1b' then sequenceLength? rest else none with
      | some length => dropSequences length rest
      | none => c :: dropSequences 0 rest

/-- The text without control sequences. -/
def plain (text : String) : String :=
  String.ofList (dropSequences 0 text.toList)

end Glossary.Text
