import RegisterMachine.Text.Numeral

/-!
# Crashes

Requests that the machine cannot answer at all. A run reports the faults of its program and goes
on to its end; a crash ends the run without a report.
-/

namespace RegisterMachine

inductive Crash where
  /-- A numeral that denotes no number. -/
  | numeral (error : Text.NumeralError)
  /-- A register number outside 0 to 12. -/
  | noRegister (index : Int)
  /-- A read from a register file that is too short. -/
  | shortRead
  /-- A write to a register file that is too short. -/
  | shortWrite
  | noCell (address : Int)
  /-- A program counter so far below zero that it counts back past the first instruction. -/
  | noInstruction
  /-- A program counter that is no index at all. -/
  | indexOverflow
  | noMemory (size : Int)
  /-- A memory with more cells than indices can number. -/
  | sizeOverflow
  | outOfMemory
  /-- An integer with too many digits to be written. -/
  | unwritable
  /-- A cycle limit that is left blank, with which no count of cycles can be compared. -/
  | blankLimit
  | infiniteAmount
  /-- An amount that is no number. -/
  | undefinedAmount
  | nulInPath
  deriving DecidableEq, Repr

def Crash.message : Crash → String
  | .numeral error => error.message
  | .noRegister index => s!"Invalid register: R{index}"
  | .shortRead => "list index out of range"
  | .shortWrite => "list assignment index out of range"
  | .noCell address => s!"Memory address {address} is out of bounds"
  | .noInstruction => "list index out of range"
  | .noMemory size => s!"Memory size must be positive, got {size}"
  | .indexOverflow | .sizeOverflow => "cannot fit 'int' into an index-sized integer"
  | .outOfMemory => ""
  | .unwritable => Text.tooManyDigits ""
  | .blankLimit => "'>=' not supported between instances of 'int' and 'list'"
  | .infiniteAmount => "cannot convert float infinity to integer"
  | .undefinedAmount => "cannot convert float NaN to integer"
  | .nulInPath => "embedded null byte"

def Crash.integers : Crash → List Int
  | .noRegister index => [index]
  | .noCell address => [address]
  | .noMemory size => [size]
  | _ => []

/-- A crash with its message. If that cannot be written, then this is the crash. -/
def Crash.stated (reason : Crash) : Crash :=
  if reason.integers.all Text.isWritable then reason else .unwritable

/-- What ends a computation early: a fault, which is reported, or a crash, which is not. -/
inductive Failure (φ : Type) where
  | fault (report : φ)
  | crash (reason : Crash)
  deriving DecidableEq, Repr

def Failure.map (f : φ → ψ) : Failure φ → Failure ψ
  | .fault report => .fault (f report)
  | .crash reason => .crash reason

/-- Lets a crash stand as the failure of a computation that can also report faults. -/
def orCrash (result : Except Crash α) : Except (Failure φ) α :=
  result.mapError .crash

@[simp] theorem orCrash_ok (a : α) :
    orCrash (.ok a : Except Crash α) = (.ok a : Except (Failure φ) α) := rfl

@[simp] theorem orCrash_error (c : Crash) :
    orCrash (.error c : Except Crash α) = (.error (.crash c) : Except (Failure φ) α) := rfl

end RegisterMachine
