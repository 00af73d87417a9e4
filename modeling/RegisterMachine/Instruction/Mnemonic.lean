import RegisterMachine.Word.Bits

/-!
# Mnemonics

The twenty instructions, grouped by what they do: seven combine two values, four branch on a
relation between the compared values, and each of the others stands alone.
-/

namespace RegisterMachine

inductive BinaryOp where
  | add | sub | and | orr | eor | lsl | lsr
  deriving DecidableEq, Repr

/-- The result before it is wrapped to a machine word. -/
def BinaryOp.eval : BinaryOp → Int → Int → Int
  | .add => (· + ·)
  | .sub => (· - ·)
  | .and => Word.bitAnd
  | .orr => Word.bitOr
  | .eor => Word.bitXor
  | .lsl => Word.shiftLeft
  | .lsr => Word.shiftRight

inductive Relation where
  | equal | notEqual | greater | less
  deriving DecidableEq, Repr

def Relation.holds : Relation → Int → Int → Bool
  | .equal, a, b => a = b
  | .notEqual, a, b => a ≠ b
  | .greater, a, b => a > b
  | .less, a, b => a < b

inductive Mnemonic where
  | load | store
  | combine (op : BinaryOp)
  | move | moveNot
  | compare
  | branch
  | branchIf (relation : Relation)
  | input | output
  | halt
  deriving DecidableEq, Repr

namespace Mnemonic

def name : Mnemonic → String
  | .load => "LDR"
  | .store => "STR"
  | .combine .add => "ADD"
  | .combine .sub => "SUB"
  | .combine .and => "AND"
  | .combine .orr => "ORR"
  | .combine .eor => "EOR"
  | .combine .lsl => "LSL"
  | .combine .lsr => "LSR"
  | .move => "MOV"
  | .moveNot => "MVN"
  | .compare => "CMP"
  | .branch => "B"
  | .branchIf .equal => "BEQ"
  | .branchIf .notEqual => "BNE"
  | .branchIf .greater => "BGT"
  | .branchIf .less => "BLT"
  | .input => "IN"
  | .output => "OUT"
  | .halt => "HALT"

/-- All mnemonics: memory, arithmetic, comparison, branches, bits, console, end. -/
def all : List Mnemonic :=
  [.load, .store, .combine .add, .combine .sub, .move, .compare, .branch, .branchIf .equal,
    .branchIf .notEqual, .branchIf .greater, .branchIf .less, .combine .and, .combine .orr,
    .combine .eor, .moveNot, .combine .lsl, .combine .lsr, .input, .output, .halt]

def ofName? (name : String) : Option Mnemonic :=
  all.find? (·.name == name)

def arity : Mnemonic → Nat
  | .combine _ => 3
  | .load | .store | .move | .moveNot | .compare => 2
  | .branch | .branchIf _ | .input | .output => 1
  | .halt => 0

/-- Whether an instruction sets the program counter itself; after every other one it advances. -/
def setsPc : Mnemonic → Bool
  | .branch | .branchIf _ | .halt => true
  | _ => false

theorem mem_all (m : Mnemonic) : m ∈ all := by
  rcases m with _ | _ | op | _ | _ | _ | _ | r | _ | _ | _ <;> (try cases op) <;> (try cases r) <;>
    decide

@[simp] theorem ofName?_name (m : Mnemonic) : ofName? m.name = some m := by
  rcases m with _ | _ | op | _ | _ | _ | _ | r | _ | _ | _ <;> (try cases op) <;> (try cases r) <;>
    decide

theorem name_of_ofName? {name : String} {m : Mnemonic} (h : ofName? name = some m) :
    m.name = name := by
  simpa using List.find?_some h

end Mnemonic

end RegisterMachine
