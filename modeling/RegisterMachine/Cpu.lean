import RegisterMachine.Crash
import RegisterMachine.Word

/-!
# The processor

Thirteen registers, a program counter, the operands of the latest comparison and a count of the
instructions executed. A processor state is a value: each change makes a new one, so a state from
before an instruction can be kept and compared with the one after it.
-/

namespace RegisterMachine

def registerCount : Nat := 13

abbrev Register := Fin registerCount

def Register.ofIndex (index : Int) : Except Crash Register :=
  if h : 0 ≤ index ∧ index < registerCount then .ok ⟨index.toNat, by omega⟩
  else .error (Crash.noRegister index).stated

def registerName (index : Nat) : String :=
  s!"R{index}"

structure Comparison where
  left : Int
  right : Int
  deriving DecidableEq, Repr

/-- The comparison flag. It holds operands even while it is not enabled. -/
structure ComparisonFlag where
  enabled : Bool := false
  left : Int := 0
  right : Int := 0
  deriving DecidableEq, Repr

def ComparisonFlag.comparison (flag : ComparisonFlag) : Option Comparison :=
  if flag.enabled then some { left := flag.left, right := flag.right } else none

/-- A processor state. The register file of a loaded program has `registerCount` entries; states
that are set from outside may have another number. -/
structure Cpu where
  registers : List Int := List.replicate registerCount 0
  pc : Int := 0
  flag : ComparisonFlag := {}
  cycles : Int := 0
  deriving DecidableEq, Repr

namespace Cpu

/-- The state in which a loaded program starts. -/
def initial : Cpu := {}

def read (cpu : Cpu) (r : Register) : Except Crash Int :=
  match cpu.registers[r.val]? with
  | some v => .ok v
  | none => .error .shortRead

/-- Puts an integer into a register, wrapped to a machine word. -/
def write (cpu : Cpu) (r : Register) (v : Int) : Except Crash Cpu :=
  if r.val < cpu.registers.length then
    .ok { cpu with registers := cpu.registers.set r.val (Word.wrap v) }
  else .error .shortWrite

def readAt (cpu : Cpu) (index : Int) : Except Crash Int := do
  cpu.read (← Register.ofIndex index)

def writeAt (cpu : Cpu) (index v : Int) : Except Crash Cpu := do
  cpu.write (← Register.ofIndex index) v

/-- The latest comparison, if there is one. -/
def comparison (cpu : Cpu) : Option Comparison :=
  cpu.flag.comparison

def compare (cpu : Cpu) (left right : Int) : Cpu :=
  { cpu with flag := { enabled := true, left, right } }

def forgetComparison (cpu : Cpu) : Cpu :=
  { cpu with flag := {} }

def jump (cpu : Cpu) (target : Int) : Cpu :=
  { cpu with pc := target }

def advance (cpu : Cpu) : Cpu :=
  cpu.jump (cpu.pc + 1)

def countCycle (cpu : Cpu) : Cpu :=
  { cpu with cycles := cpu.cycles + 1 }

def resetCycles (cpu : Cpu) : Cpu :=
  { cpu with cycles := 0 }

/-- The state from which a run starts: the registers stay as they are. -/
def restart (cpu : Cpu) : Cpu :=
  ((cpu.jump 0).forgetComparison).resetCycles

/-- Whether counters fit a program: a program counter from zero to the program's length, if that
is known, and a cycle count that is not negative. -/
def countersValid (pc cycles : Int) (programLength : Option Int) : Bool :=
  0 ≤ pc && programLength.all (pc ≤ ·) && 0 ≤ cycles

/-- Whether a register file has `registerCount` entries that are machine words. An entry is `none`
where something else than an integer stands. -/
def registersValid (file : List (Option Int)) : Bool :=
  file.length == registerCount && file.all (·.any Word.inRange)

/-- Whether a state is one that a program of a length can be in. -/
def isValid (cpu : Cpu) (programLength : Option Int) : Bool :=
  registersValid (cpu.registers.map some) && countersValid cpu.pc cpu.cycles programLength

def named (cpu : Cpu) : List (String × Int) :=
  cpu.registers.zipIdx.map fun (v, index) => (registerName index, v)

def comparisonText (cpu : Cpu) : String :=
  match cpu.comparison with
  | some c => s!"CMP=({c.left},{c.right})"
  | none => "CMP=none"

def integers (cpu : Cpu) : List Int :=
  cpu.registers ++ [cpu.pc, cpu.cycles] ++ cpu.comparison.elim [] fun c => [c.left, c.right]

def text (cpu : Cpu) : String :=
  let registers := " ".intercalate (cpu.named.map fun (name, v) => s!"{name}={v}")
  s!"[Cycle {cpu.cycles}] PC={cpu.pc} {registers} {cpu.comparisonText}"

@[simp] theorem comparison_compare (cpu : Cpu) (left right : Int) :
    (cpu.compare left right).comparison = some { left, right } := rfl

@[simp] theorem comparison_forgetComparison (cpu : Cpu) :
    cpu.forgetComparison.comparison = none := rfl

@[simp] theorem registers_write
    {cpu next : Cpu} {r : Register} {v : Int} (h : cpu.write r v = .ok next) :
    next.registers = cpu.registers.set r.val (Word.wrap v) := by
  unfold write at h
  split at h
  · cases h
    rfl
  · cases h

theorem read_write_self
    {cpu next : Cpu} {r : Register} {v : Int} (h : cpu.write r v = .ok next) :
    next.read r = .ok (Word.wrap v) := by
  have hr : r.val < cpu.registers.length := by
    unfold write at h
    split at h
    · assumption
    · cases h
  simp [read, registers_write h, hr]

theorem read_write_of_ne
    {cpu next : Cpu} {r s : Register} {v : Int} (h : cpu.write r v = .ok next) (hs : s ≠ r) :
    next.read s = cpu.read s := by
  have : r.val ≠ s.val := fun e => hs (Fin.ext e.symm)
  simp [read, registers_write h, this]

end Cpu

end RegisterMachine
