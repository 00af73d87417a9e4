/-!
# Machine words

The values a register or a memory cell holds: the integers from `least` to `greatest`, which have
32 bits in two's complement. Other integers come into the machine by wrapping.
-/

namespace RegisterMachine.Word

def modulus : Nat := 0x100000000

def least : Int := -0x80000000

def greatest : Int := 0x7FFFFFFF

def inRange (v : Int) : Bool :=
  least ≤ v && v ≤ greatest

/-- The machine word congruent to an integer modulo the number of words. -/
def wrap (v : Int) : Int :=
  v.bmod modulus

theorem inRange_iff {v : Int} : inRange v = true ↔ least ≤ v ∧ v ≤ greatest := by
  rw [inRange, Bool.and_eq_true, decide_eq_true_eq, decide_eq_true_eq]

@[simp] theorem inRange_wrap (v : Int) : inRange (wrap v) = true := by
  have low := @Int.le_bmod v modulus (by decide)
  have high := @Int.bmod_lt v modulus (by decide)
  rw [inRange_iff, wrap]
  simp only [modulus, least, greatest] at low high ⊢
  omega

theorem wrap_of_inRange {v : Int} (h : inRange v = true) : wrap v = v := by
  rw [inRange_iff] at h
  simp only [least, greatest] at h
  exact Int.bmod_eq_of_le (by simp only [modulus]; omega) (by simp only [modulus]; omega)

@[simp] theorem wrap_wrap (v : Int) : wrap (wrap v) = wrap v :=
  wrap_of_inRange (inRange_wrap v)

end RegisterMachine.Word
