import RegisterMachine.Program.Source
import RegisterMachine.Registry
import RegisterMachine.SourceFile

/-!
# The machine

A machine owns memory and a console, which outlive every program, and holds at most one program
with its processor state, which a load replaces. Stepping executes one instruction; if that fails,
the processor state stays as it was.
-/

namespace RegisterMachine

/-- The record of an executed instruction, with the states before and after it. -/
structure TraceEntry where
  instruction : Instruction
  decoded : Decoded
  before : Cpu
  after : Cpu
  deriving DecidableEq, Repr

/-- The number of instructions that the run had executed before this one. -/
def TraceEntry.cycle (entry : TraceEntry) : Int :=
  entry.before.cycles

inductive LoadError where
  | unreadable (path : String) (error : ReadError)
  | source (error : SourceError)
  deriving DecidableEq, Repr

def LoadError.message : LoadError → String
  | .unreadable path error => error.message path
  | .source error => error.message

def unnamedFile : String := "<string>"

structure Machine extends World where
  program : Option Program := none
  cpu : Option Cpu := none
  file : String := unnamedFile
  /-- The instructions executed since the last load or start of a run, if they are recorded. -/
  trace : Array TraceEntry := #[]
  tracing : Bool := false
  limit : Option Int := none

namespace Machine

/-- A machine with memory of a size and nothing loaded, where the host has room for a number of
cells. -/
def create (room : Nat) (console : Console) (memorySize : Int) (limit : Option Int)
    (tracing : Bool) : Except Crash Machine :=
  (Memory.ofSize room memorySize).map fun memory => { memory, console, limit, tracing }

/-! ## Loading -/

def unload (m : Machine) : Machine :=
  { m with program := none, cpu := none, trace := #[] }

/-- Loads a program that has been read. If it could not be, nothing is loaded afterwards. -/
def loadParsed (m : Machine) (parsed : Except SourceError Program) (file : String) :
    Except SourceError Unit × Machine :=
  match parsed with
  | .error error => (.error error, m.unload)
  | .ok program =>
      (.ok (), { m.unload with program := some program, cpu := some Cpu.initial, file })

def loadLines (m : Machine) (lines : List String) (file : String) :
    Except SourceError Unit × Machine :=
  m.loadParsed (Program.ofLines lines) file

def loadText (m : Machine) (text : String) (file : String) : Except SourceError Unit × Machine :=
  m.loadParsed (Program.ofText text) file

def loadFile (m : Machine) (read : FileReader) (path : String) :
    Except (Failure LoadError) Unit × Machine :=
  match readLines read path with
  | .error failure => (.error (failure.map (.unreadable path)), m.unload)
  | .ok lines =>
      let (result, m) := m.loadLines lines path
      (result.mapError fun error => .fault (.source error), m)

def isLoaded (m : Machine) : Bool :=
  m.program.isSome

/-- Whether there is nothing left to execute. -/
def isFinished (m : Machine) : Bool :=
  match m.program, m.cpu with
  | some program, some cpu => program.length ≤ cpu.pc
  | _, _ => true

/-! ## Stepping -/

def siteOf (m : Machine) (instruction : Instruction) (index : Int) : Site :=
  { file := m.file, line := instruction.line, index, text := instruction.text }

def complete (m : Machine) (entry : TraceEntry) : Machine :=
  let m := { m with cpu := some entry.after }
  if m.tracing then { m with trace := m.trace.push entry } else m

/-- Executes an instruction of a program in a state. A state that the program cannot be in is
refused, and the one before the instruction stays. -/
def executeAt (m : Machine) (program : Program) (cpu : Cpu) (instruction : Instruction) :
    Except (Failure Report) TraceEntry × Machine :=
  let decoded := Decoded.ofText instruction.text
  let site := m.siteOf instruction cpu.pc
  let (result, world) := Registry.standard.execute program.layout cpu decoded m.toWorld
  let m := { m with toWorld := world }
  match result with
  | .error failure => (.error (failure.map fun fault => { fault, site := some site }), m)
  | .ok next =>
      if next.isValid (some program.length) then
        let entry := { instruction, decoded, before := cpu, after := next }
        (.ok entry, m.complete entry)
      else
        let failure := (Fault.invalidState instruction.text next).toFailure
        (.error (failure.map fun fault => { fault, site := some site }), m)

/-- Executes the next instruction, if there is one. -/
def step (m : Machine) : Except (Failure Report) (Option TraceEntry) × Machine :=
  match m.program, m.cpu with
  | some program, some cpu =>
      if program.length ≤ cpu.pc then (.ok none, m)
      else
        match program.fetch cpu.pc with
        | .error reason => (.error (.crash reason), m)
        | .ok instruction =>
            let (result, m) := m.executeAt program cpu instruction
            (result.map some, m)
  | _, _ => (.error (.fault { fault := .notLoaded }), m)

/-! ## Inspection -/

def state (m : Machine) : Except (Failure Report) Cpu :=
  match m.cpu with
  | some cpu => .ok cpu
  | none => .error (.fault { fault := .notLoaded })

def readRegister (m : Machine) (index : Int) : Except (Failure Report) Int := do
  orCrash ((← m.state).readAt index)

def readMemory (m : Machine) (address : Int) : Except Crash Int :=
  m.memory.read address

def writeMemory (m : Machine) (address v : Int) : Except Crash Machine :=
  (m.memory.write address v).map fun memory => { m with memory }

def feed (m : Machine) (lines : List String) : Machine :=
  { m with console := m.console.feed lines }

def instructionTexts (m : Machine) : List String :=
  m.program.elim [] fun program => program.instructions.toList.map (·.text)

def labels (m : Machine) : List (String × Int) :=
  m.program.elim [] fun program => program.labels.entries

def cycles (m : Machine) : Int :=
  m.cpu.elim 0 (·.cycles)

end Machine

end RegisterMachine
