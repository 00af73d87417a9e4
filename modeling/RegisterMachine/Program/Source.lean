import RegisterMachine.Instruction.Mnemonic
import RegisterMachine.Program
import RegisterMachine.Text.Blank
import RegisterMachine.Text.Lines

/-!
# Program sources

Turning source lines into a program. Each line is looked at by itself: it is blank or a comment,
an instruction, the declaration of a label for the instruction after it, or none of these. The
first line that is none of these, or that declares a label anew, decides the error.
-/

namespace RegisterMachine

inductive SourceLine where
  | ignorable
  | instruction (text : String)
  | label (name : String)
  | unknown
  deriving DecidableEq, Repr

/-- Classifies a line by its trimmed form. A mnemonic at its front makes it an instruction even if
it ends like a label. -/
def SourceLine.ofText (line : String) : SourceLine :=
  let trimmed := Text.trim line.toList
  if trimmed.isEmpty || ['/', '/'].isPrefixOf trimmed then .ignorable
  else if (Mnemonic.ofName? (String.ofList (Text.firstWord trimmed))).isSome then
    .instruction (String.ofList trimmed)
  else if trimmed.getLast? = some ':' then
    .label (String.ofList (Text.trim trimmed.dropLast))
  else .unknown

inductive SourceError where
  | duplicateLabel (label : String) (number : Nat) (line : String)
  | unknownSyntax (number : Nat) (line : String)
  deriving DecidableEq, Repr

namespace SourceError

def number : SourceError → Nat
  | .duplicateLabel _ number _ => number
  | .unknownSyntax number _ => number

def line : SourceError → String
  | .duplicateLabel _ _ line => line
  | .unknownSyntax _ line => line

def message : SourceError → String
  | .duplicateLabel label number _ =>
      s!"Program cannot contain 2 branches of the same name: '{label}' on line {number}"
  | .unknownSyntax number line =>
      s!"Unknown instruction or syntax error on line {number}: '{line}'"

end SourceError

namespace Program

/-- The program with one more source line. -/
def addLine (program : Program) (number : Nat) (line : String) : Except SourceError Program :=
  match SourceLine.ofText line with
  | .ignorable => .ok program
  | .instruction text =>
      .ok { program with instructions := program.instructions.push { text, line := number } }
  | .label name =>
      if program.labels.contains name then .error (.duplicateLabel name number line)
      else .ok { program with labels := program.labels.insert name program.length }
  | .unknown => .error (.unknownSyntax number line)

def addLines (program : Program) (numbered : List (String × Nat)) : Except SourceError Program :=
  numbered.foldlM (fun program (line, number) => program.addLine number line) program

def ofLines (lines : List String) : Except SourceError Program :=
  addLines {} (lines.zipIdx 1)

def ofText (text : String) : Except SourceError Program :=
  ofLines ((Text.lines text.toList).map String.ofList)

@[simp] theorem addLines_nil (program : Program) : program.addLines [] = .ok program := rfl

theorem addLines_cons (program : Program) (line : String) (number : Nat)
    (rest : List (String × Nat)) :
    program.addLines ((line, number) :: rest) =
      (program.addLine number line >>= fun next => next.addLines rest) := by
  simp [addLines]

theorem addLines_append (program : Program) (front back : List (String × Nat)) :
    program.addLines (front ++ back) =
      (program.addLines front >>= fun next => next.addLines back) := by
  simp [addLines, List.foldlM_append]

end Program

end RegisterMachine
