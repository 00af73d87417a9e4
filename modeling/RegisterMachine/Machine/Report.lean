import RegisterMachine.Machine
import RegisterMachine.Text.Layout
import RegisterMachine.Text.Mapping
import RegisterMachine.Text.Quoted

/-!
# Reports on a machine

The listing of the loaded program, the trace as text and a summary of the machine.
-/

namespace RegisterMachine

/-- The registers that differ between the states of a trace entry: name, old value, new value. -/
def TraceEntry.changes (entry : TraceEntry) : List (String × Int × Int) :=
  (entry.before.named.zip entry.after.registers).filterMap fun ((name, old), new) =>
    if old = new then none else some (name, old, new)

def TraceEntry.changesText (entry : TraceEntry) : String :=
  ", ".intercalate (entry.changes.map fun (name, old, new) => s!"{name}: {old} -> {new}")

def namedMapping (entries : List (String × Int)) : String :=
  Text.mapping (entries.map fun (name, v) => (Text.quote name, toString v))

def cellMapping (entries : List (Nat × Int)) : String :=
  Text.mapping (entries.map fun (address, v) => (toString address, toString v))

namespace Machine

def listing (m : Machine) : List String :=
  match m.program with
  | none => ["No program currently loaded."]
  | some program =>
      ["Instructions: "] ++
        (program.instructions.toList.zipIdx.map fun (instruction, index) =>
          s!"{index} : {instruction.text}") ++
        ["Branches: "] ++
        (program.labels.entries.map fun (label, index) => s!"{label} : {index}")

def display (m : Machine) : Machine :=
  { m with console := m.listing.foldl Console.writeLine m.console }

/-- A trace entry in the trace report. The program counter is named only if it did not just
advance. -/
def traceEntryLines (entry : TraceEntry) : List String :=
  let changes := if entry.changes.isEmpty then [] else [s!"  Changes: {entry.changesText}"]
  let jump :=
    if entry.after.pc = entry.before.pc + 1 then []
    else [s!"  PC: {entry.before.pc} -> {entry.after.pc}"]
  ["", s!"[Cycle {entry.cycle}] line {entry.instruction.line}",
    s!"  Instruction: {entry.instruction.text}"] ++ changes ++ jump

def stateLines (m : Machine) : List String :=
  match m.cpu with
  | none => []
  | some cpu =>
      [s!"  Registers: {namedMapping cpu.named}", s!"  Memory: {cellMapping m.memory.nonzero}",
        s!"  PC: {cpu.pc}", s!"  Cycles: {cpu.cycles}"]

def traceReport (m : Machine) : List String :=
  let bar := Text.rule '=' 70
  [bar, "EXECUTION TRACE", bar] ++ m.trace.toList.flatMap traceEntryLines ++
    ["", bar, "FINAL STATE", bar] ++ m.stateLines

def printTrace (m : Machine) : Machine :=
  { m with console := m.traceReport.foldl Console.notify m.console }

end Machine

structure Summary where
  file : Option String
  cycles : Int
  finished : Bool
  registers : List (String × Int)
  memory : List (Nat × Int)
  comparison : ComparisonFlag
  pc : Int
  traceLength : Nat
  deriving DecidableEq, Repr

/-- A summary names a file exactly if a program is loaded. -/
def Summary.loaded (summary : Summary) : Bool :=
  summary.file.isSome

def Machine.summary (m : Machine) : Summary :=
  { file := if m.isLoaded then some m.file else none
    cycles := m.cycles
    finished := m.isFinished
    registers := m.cpu.elim [] (·.named)
    memory := m.memory.nonzero
    comparison := m.cpu.elim {} (·.flag)
    pc := m.cpu.elim 0 (·.pc)
    traceLength := m.trace.size }

end RegisterMachine
