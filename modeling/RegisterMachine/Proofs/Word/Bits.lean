import RegisterMachine.Word
import RegisterMachine.Word.Bits

/-!
# Words as bit vectors

A machine word is read as the 32 bits that stand for it. Each operation on integers of unbounded
width agrees, on the last 32 bits, with the operation on bit vectors, so a single wrap at the end of
a computation gives the same word as arithmetic on words would.
-/

namespace RegisterMachine.Word

def bits (v : Int) : BitVec 32 :=
  BitVec.ofInt 32 v

@[simp] theorem bits_toInt (x : BitVec 32) : bits x.toInt = x :=
  BitVec.ofInt_toInt

theorem toInt_bits (v : Int) : (bits v).toInt = wrap v := by
  rw [bits, BitVec.toInt_ofInt]
  rfl

theorem toInt_bits_of_inRange {v : Int} (h : inRange v = true) : (bits v).toInt = v := by
  rw [toInt_bits, wrap_of_inRange h]

@[simp] theorem bits_wrap (v : Int) : bits (wrap v) = bits v := by
  rw [← toInt_bits, bits_toInt]

/-! ## Arithmetic -/

theorem bits_add (a b : Int) : bits (a + b) = bits a + bits b :=
  BitVec.ofInt_add a b

theorem bits_sub (a b : Int) : bits (a - b) = bits a - bits b := by
  simp only [bits, Int.sub_eq_add_neg, BitVec.ofInt_add, BitVec.ofInt_neg, BitVec.sub_eq_add_neg]

theorem bits_mul (a b : Int) : bits (a * b) = bits a * bits b :=
  BitVec.ofInt_mul a b

/-! ## Bitwise operations -/

theorem bits_natCast (m : Nat) : bits m = BitVec.ofNat 32 m := rfl

theorem bits_negSucc (n : Nat) : bits (.negSucc n) = ~~~BitVec.ofNat 32 n :=
  BitVec.ofInt_negSucc_eq_not_ofNat

theorem ofNat_withoutBits (m n : Nat) :
    BitVec.ofNat 32 (withoutBits m n) = BitVec.ofNat 32 m &&& ~~~BitVec.ofNat 32 n := by
  rw [withoutBits, BitVec.ofNat_xor, BitVec.ofNat_and]
  ext i hi
  simp only [BitVec.getElem_xor, BitVec.getElem_and, BitVec.getElem_not]
  cases (BitVec.ofNat 32 m)[i] <;> cases (BitVec.ofNat 32 n)[i] <;> rfl

theorem bits_bitAnd (a b : Int) : bits (bitAnd a b) = bits a &&& bits b := by
  cases a <;> cases b <;>
    simp only [bitAnd, Int.ofNat_eq_natCast, bits_natCast, bits_negSucc, ofNat_withoutBits,
      BitVec.ofNat_and, BitVec.ofNat_or, BitVec.not_or, BitVec.and_comm]

theorem bits_bitOr (a b : Int) : bits (bitOr a b) = bits a ||| bits b := by
  cases a <;> cases b <;>
    simp only [bitOr, Int.ofNat_eq_natCast, bits_natCast, bits_negSucc, ofNat_withoutBits,
      BitVec.ofNat_and, BitVec.ofNat_or, BitVec.not_and, BitVec.not_not, BitVec.or_comm]

theorem bits_bitXor (a b : Int) : bits (bitXor a b) = bits a ^^^ bits b := by
  cases a <;> cases b <;>
    simp only [bitXor, Int.ofNat_eq_natCast, bits_natCast, bits_negSucc, BitVec.ofNat_xor,
      ← BitVec.not_xor_left, ← BitVec.not_xor_right, BitVec.not_not]

theorem bits_bitNot (a : Int) : bits (bitNot a) = ~~~bits a := by
  rw [bitNot, bits_sub, bits, bits, BitVec.not_eq_neg_add, BitVec.ofInt_neg]
  rfl

/-! ## Shifts -/

/-- The count of a shift is what its bits say, taken modulo 32. -/
theorem shiftCount_eq (count : Int) : shiftCount count = (bits count).toNat % 32 := by
  rw [shiftCount, bits, BitVec.toNat_ofInt]
  omega

/-- By any count: one beyond the width leaves no bit. -/
theorem bits_shl (a : Int) (count : Nat) : bits (a <<< count) = bits a <<< count := by
  rw [bits, bits, Int.shiftLeft_eq', BitVec.ofInt_mul, BitVec.shiftLeft_eq_mul_twoPow]
  congr 1
  apply BitVec.eq_of_toNat_eq
  rw [BitVec.ofInt_natCast, BitVec.toNat_ofNat, BitVec.toNat_twoPow]

theorem bits_shiftLeft (a count : Int) :
    bits (shiftLeft a count) = bits a <<< ((bits count).toNat % 32) := by
  rw [shiftLeft, shiftCount_eq]
  exact bits_shl a _

/-- Only of a word: a wider integer has further bits to shift in. -/
theorem bits_shiftRight {a : Int} (h : inRange a = true) (count : Int) :
    bits (shiftRight a count) = (bits a).sshiftRight ((bits count).toNat % 32) := by
  rw [shiftRight, shiftCount_eq, BitVec.sshiftRight, toInt_bits_of_inRange h]
  rfl

end RegisterMachine.Word
