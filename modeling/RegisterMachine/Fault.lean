import RegisterMachine.Cpu

/-!
# Faults

The ways in which a program fails while it runs, each with its message, and the place in the
source where it failed.
-/

namespace RegisterMachine

inductive Fault where
  | arity (mnemonic : String) (expected : Int) (actual : Nat)
  | registerForm (token : String)
  | registerNumber (token : String)
  | addressForm (token : String)
  | addressRange (address : Int) (memorySize : Int)
  | literalForm (token : String)
  | operandForm (token : String)
  | unknownLabel (label : String)
  | noComparison (mnemonic : String)
  | badInput
  | unknownInstruction (mnemonic : String)
  /-- An instruction led to a state that no program can be in. -/
  | invalidState (instruction : String) (cpu : Cpu)
  | cycleLimit (limit : Int)
  | notLoaded
  deriving DecidableEq, Repr

def Fault.message : Fault → String
  | .arity mnemonic expected actual =>
      let noun := if expected = 1 then "argument" else "arguments"
      s!"{mnemonic} expects {expected} {noun}, but got {actual}."
  | .registerForm token => s!"Invalid register format. Expected 'Rn', but got '{token}'."
  | .registerNumber token =>
      s!"{token} is not a valid register. Valid registers are R0-R{registerCount - 1}."
  | .addressForm token =>
      "Invalid memory location format. Expected an integer or a register, " ++
        s!"but got '{token}'."
  | .addressRange address memorySize =>
      s!"Memory address {address} is out of bounds. Valid addresses are 0-{memorySize - 1}."
  | .literalForm token => s!"Invalid literal value format: '{token}'."
  | .operandForm token =>
      "Invalid operand format. Expected a register 'Rn' or a literal '#value', " ++
        s!"but got '{token}'."
  | .unknownLabel label => s!"Branch label '{label}' not found."
  | .noComparison mnemonic => s!"Cannot {mnemonic} without a preceding CMP instruction."
  | .badInput => "Input must be a valid 32-bit integer."
  | .unknownInstruction mnemonic => s!"Unknown instruction '{mnemonic}'."
  | .invalidState instruction cpu => s!"Invalid CPU state after '{instruction}': {cpu.text}"
  | .cycleLimit limit => s!"Max cycles ({limit}) exceeded"
  | .notLoaded => "No program currently loaded."

/-- The integers that a message shows, but for the counts of arguments. -/
def Fault.integers : Fault → List Int
  | .addressRange address memorySize => [address, memorySize - 1]
  | .invalidState _ cpu => cpu.integers
  | .cycleLimit limit => [limit]
  | _ => []

/-- A fault as the failure of a computation. It is a crash if its message cannot be written. -/
def Fault.toFailure (fault : Fault) : Failure Fault :=
  if fault.integers.all Text.isWritable then .fault fault else .crash .unwritable

theorem Fault.toFailure_addressRange
    {address memorySize : Int} (ha : Text.isWritable address = true)
    (hm : Text.isWritable (memorySize - 1) = true) :
    (Fault.addressRange address memorySize).toFailure =
      .fault (.addressRange address memorySize) := by
  simp [toFailure, integers, ha, hm]

theorem Fault.toFailure_cycleLimit (limit : Int) :
    (Fault.cycleLimit limit).toFailure =
      if Text.isWritable limit then .fault (.cycleLimit limit) else .crash .unwritable := by
  simp [toFailure, integers]

structure Site where
  file : String
  line : Int
  index : Int
  text : String
  deriving DecidableEq, Repr

structure Report where
  fault : Fault
  site : Option Site := none
  deriving DecidableEq, Repr

namespace Report

def message (report : Report) : String :=
  report.fault.message

def traceback (report : Report) : String :=
  match report.site with
  | none => report.message
  | some site =>
      s!"Traceback:\n> File \"{site.file}\", line {site.line}\nRuntimeError: {report.message}"

end Report

end RegisterMachine
