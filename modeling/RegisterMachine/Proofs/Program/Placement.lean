import RegisterMachine.Machine
import RegisterMachine.Proofs.Program.WellFormed

/-!
# Where instructions stand

Of the lines of a source only some become instructions, and an instruction keeps the number of its
line. The number leads back to the line: its trimmed text is that of the instruction, and the
instruction lines in front of it are as many as the instructions in front of the instruction.
-/

namespace RegisterMachine

/-! ## Forms of a source -/

inductive SourceForm where
  | asText (text : String)
  | asLines (lines : List String)
  deriving DecidableEq, Repr

namespace SourceForm

def toLines : SourceForm → List String
  | .asText text => (Text.lines text.toList).map String.ofList
  | .asLines lines => lines

def toProgram : SourceForm → Except SourceError Program
  | .asText text => Program.ofText text
  | .asLines lines => Program.ofLines lines

theorem toProgram_eq (source : SourceForm) : source.toProgram = Program.ofLines source.toLines := by
  cases source <;> rfl

end SourceForm

def Machine.load (m : Machine) (source : SourceForm) (file : String) :
    Except SourceError Unit × Machine :=
  match source with
  | .asText text => m.loadText text file
  | .asLines lines => m.loadLines lines file

theorem Machine.load_eq (m : Machine) (source : SourceForm) (file : String) :
    m.load source file = m.loadParsed source.toProgram file := by
  cases source <;> rfl

/-- The machine with a program newly loaded. -/
def Machine.withProgram (m : Machine) (program : Program) (file : String) : Machine :=
  { m with program := some program, cpu := some Cpu.initial, file, trace := #[] }

theorem Machine.load_of_toProgram {source : SourceForm} {program : Program}
    (h : source.toProgram = .ok program) (m : Machine) (file : String) :
    m.load source file = (.ok (), m.withProgram program file) := by
  rw [load_eq, h]
  rfl

/-- A load that succeeds has read a program, and that program is the one loaded. -/
theorem Machine.load_eq_ok {m loaded : Machine} {source : SourceForm} {file : String}
    (h : m.load source file = (.ok (), loaded)) :
    ∃ program, source.toProgram = .ok program ∧ loaded = m.withProgram program file := by
  cases hp : source.toProgram with
  | error e => simp [load_eq, loadParsed, hp] at h
  | ok program =>
      rw [load_of_toProgram hp] at h
      cases h
      exact ⟨program, rfl, rfl⟩

/-! ## Instruction lines -/

def isInstructionLine (line : String) : Bool :=
  match SourceLine.ofText line with
  | .instruction _ => true
  | _ => false

/-- An instruction is that of a source line which has so many instruction lines in front of it. -/
def Instruction.StandsIn (instruction : Instruction) (lines : List String) (index : Nat) : Prop :=
  ∃ front line back, lines = front ++ line :: back ∧
    instruction.line = front.length + 1 ∧
    instruction.text = String.ofList (Text.trim line.toList) ∧
    (front.filter isInstructionLine).length = index

theorem Instruction.StandsIn.append {instruction : Instruction} {lines : List String} {index : Nat}
    (h : instruction.StandsIn lines index) (more : List String) :
    instruction.StandsIn (lines ++ more) index := by
  obtain ⟨front, line, back, hl, hn⟩ := h
  refine ⟨front, line, back ++ more, ?_, hn⟩
  rw [hl, List.append_assoc, List.cons_append]

namespace Program

structure Places (program : Program) (lines : List String) : Prop where
  length_eq : program.length = (lines.filter isInstructionLine).length
  standsIn : ∀ (index : Nat) (instruction : Instruction),
    program.instructions[index]? = some instruction → instruction.StandsIn lines index

theorem places_empty : Places {} [] where
  length_eq := rfl
  standsIn index instruction hi := by simp at hi

namespace Places

variable {program : Program} {lines : List String} (h : program.Places lines) {line : String}
include h

/-- A line that is no instruction changes none. -/
theorem skip (hl : isInstructionLine line = false) {next : Program}
    (hn : next.instructions = program.instructions) : next.Places (lines ++ [line]) where
  length_eq := by
    have hp : next.length = program.length := congrArg Array.size hn
    simp [hp, h.length_eq, hl]
  standsIn index instruction hi := by
    rw [hn] at hi
    exact (h.standsIn index instruction hi).append [line]

/-- An instruction line is the last one, so it has all the others in front of it. -/
theorem push {text : String} (hl : SourceLine.ofText line = .instruction text) :
    Places
      { program with
        instructions :=
          program.instructions.push { text, line := ((lines.length + 1 : Nat) : Int) } }
      (lines ++ [line]) := by
  have ht : text = String.ofList (Text.trim line.toList) :=
    (SourceLine.ofText_eq_instruction hl).1
  have hi : isInstructionLine line = true := by simp [isInstructionLine, hl]
  have hs : program.instructions.size = (lines.filter isInstructionLine).length := h.length_eq
  refine ⟨?_, ?_⟩
  · simp [length, hs, hi]
  · intro index instruction hk
    rw [Array.getElem?_push] at hk
    by_cases hx : index = program.instructions.size
    · rw [if_pos hx] at hk
      cases hk
      exact ⟨lines, line, [], rfl, by simp, ht, by rw [← hs, hx]⟩
    · rw [if_neg hx] at hk
      exact (h.standsIn index instruction hk).append [line]

theorem addLine {next : Program} (ha : program.addLine (lines.length + 1) line = .ok next) :
    next.Places (lines ++ [line]) := by
  unfold Program.addLine at ha
  split at ha
  next hl =>
    cases ha
    exact h.skip (by simp [isInstructionLine, hl]) rfl
  next text hl =>
    cases ha
    exact h.push hl
  next name hl =>
    split at ha
    · cases ha
    · cases ha
      exact h.skip (by simp [isInstructionLine, hl]) rfl
  next => cases ha

theorem addLines {more : List String} {next : Program}
    (ha : program.addLines (more.zipIdx (lines.length + 1)) = .ok next) :
    next.Places (lines ++ more) := by
  -- A line that is read moves over to those in front, which gives the next one its number.
  induction more generalizing program lines with
  | nil =>
      cases ha
      rw [List.append_nil]
      exact h
  | cons line rest ih =>
      rw [List.zipIdx_cons, addLines_cons] at ha
      cases hl : program.addLine (lines.length + 1) line with
      | error e =>
          rw [hl] at ha
          cases ha
      | ok middle =>
          rw [hl] at ha
          have hn : (lines ++ [line]).length = lines.length + 1 := by simp
          have hr := ih (h.addLine hl) (by rw [hn]; exact ha)
          rwa [List.append_assoc, List.singleton_append] at hr

end Places

theorem places_of_ofLines {lines : List String} {program : Program}
    (h : ofLines lines = .ok program) : program.Places lines :=
  places_empty.addLines h

end Program

end RegisterMachine
