import Glossary.Proofs.ArtifactFiles
import Glossary.Proofs.ControlSequences
import Glossary.Proofs.Isolation

/-!
What the commands that show terms print. Either all terms can be shown, and their texts are printed
one after the other as each would be alone; or nothing is printed, and the problem that is told is
that of the dictionary or else that of the first term that cannot be shown. What is printed goes
without control sequences.
-/

namespace Glossary

open Fallible Text

namespace CompiledDictionary

end CompiledDictionary

namespace CommandLine

variable {vars : Variables} {files : FileTree} {showing : Showing} {layer : Layer}
  {names : List String} {dictionary : Option String} {c : Configuration} {text : String}
  {compilation : CompiledDictionary} {o : Outcome} {d : Diagnostic}

section Arguments

variable {arguments : List String}

end Arguments

/-- What stands at the first of some paths at which something stands. -/
def FileTree.first (t : FileTree) : List Path → Place
  | [] => .missing
  | path :: rest =>
      match t.read path with
      | .missing => t.first rest
      | place => place

namespace Outcome

/-- Nothing but errors is printed. -/
def IsSilent (o : Outcome) : Prop :=
  o.exit = 1 ∧ ∃ errors, o.output = some ("", errors)

/-- Only a problem is told, after warnings. -/
def Tells (o : Outcome) (warned : String) (d : Diagnostic) : Prop :=
  o.exit = 1 ∧ o.output = some ("", warned ++ ("Error: " ++ plain d.message ++ "\n"))

/-- A text is printed, and there are no errors but warnings. -/
def Prints (o : Outcome) (warned text : String) : Prop :=
  o.exit = 0 ∧ o.output = some (text, warned)

theorem IsSilent.warned (h : o.IsSilent) (text : String) : (o.warned text).IsSilent := by
  obtain ⟨hexit, errors, houtput⟩ := h
  exact ⟨hexit, text ++ errors, by simp [Outcome.warned, houtput]⟩

theorem Tells.warned (h : o.Tells "" d) (text : String) : (o.warned text).Tells text d := by
  obtain ⟨hexit, houtput⟩ := h
  exact ⟨hexit, by simp [Outcome.warned, houtput]⟩

/-- A message without an escape character is told word for word. -/
theorem Tells.output_eq {warned : String} (h : o.Tells warned d)
    (hmessage : '\x1b' ∉ d.message.toList) :
    o.output = some ("", warned ++ ("Error: " ++ d.message ++ "\n")) := by
  rw [h.2, plain_eq_self hmessage]

end Outcome

namespace Session

/-- Whether the texts can be written out; only the statements for tables have SQL types in them. -/
def AreWritable (c : Configuration) (compilation : CompiledDictionary) (showing : Showing)
    (layer : Layer) (names : List String) : Prop :=
  showing = .create → layer = .physical → ∀ name ∈ names, isWritable c compilation name = true

section CommandLines

variable {arguments : List String} {warned : String}

theorem AreWritable.single {name : String}
    (h : AreWritable c compilation showing layer names) (hname : name ∈ names) :
    AreWritable c compilation showing layer [name] :=
  fun hcreate hphysical => List.forall_mem_singleton.mpr (h hcreate hphysical name hname)

end CommandLines

end Session

section Library

open Session

end Library

end CommandLine

end Glossary
