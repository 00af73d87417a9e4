/-!
# Indices

The integers that can number the entries of a table: those that have 64 bits in two's complement.
A negative one counts back from the end of the table.
-/

namespace RegisterMachine.Index

def least : Int := -0x8000000000000000

def greatest : Int := 0x7FFFFFFFFFFFFFFF

def inRange (v : Int) : Bool :=
  least ≤ v && v ≤ greatest

theorem inRange_iff {v : Int} : inRange v = true ↔ least ≤ v ∧ v ≤ greatest := by
  rw [inRange, Bool.and_eq_true, decide_eq_true_eq, decide_eq_true_eq]

end RegisterMachine.Index
