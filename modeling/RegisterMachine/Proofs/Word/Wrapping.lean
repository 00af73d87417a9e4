import Mathlib.Data.Int.Bitwise
import RegisterMachine.Cpu
import RegisterMachine.Memory
import RegisterMachine.Proofs.Word.Bits

/-!
# Wrapping

Wrapping an integer keeps its last 32 bits, of which the highest is the sign. Those bits of a sum, a
product, a shift to the left or a bitwise combination come from the same bits of the operands, so a
computation may wrap its values at every step or once at the end, when the result is stored.
-/

namespace RegisterMachine.Word

/-! ## The word of an integer -/

theorem wrap_eq_wrap_iff {a b : Int} : wrap a = wrap b ↔ bits a = bits b := by
  rw [← toInt_bits, ← toInt_bits, BitVec.toInt_inj]

/-- There is one word in each class of integers modulo the number of words. -/
theorem eq_wrap_iff {v w : Int} :
    w = wrap v ↔ inRange w = true ∧ w % modulus = v % modulus := by
  constructor
  · rintro rfl
    exact ⟨inRange_wrap v, Int.bmod_emod⟩
  · rintro ⟨hw, hm⟩
    calc w = wrap w := (wrap_of_inRange hw).symm
      _ = (w % modulus).bmod modulus := (Int.emod_bmod w modulus).symm
      _ = (v % modulus).bmod modulus := by rw [hm]
      _ = wrap v := Int.emod_bmod v modulus

theorem wrap_eq_self_iff {v : Int} : wrap v = v ↔ inRange v = true :=
  ⟨fun h => h ▸ inRange_wrap v, wrap_of_inRange⟩

/-! ## Masking -/

/-- The integer with the bits of a word, and no others. -/
def mask : Int := 0xFFFFFFFF

theorem bits_mask : bits mask = BitVec.allOnes 32 := by decide

theorem bitAnd_mask_bounds (v : Int) : 0 ≤ bitAnd v mask ∧ bitAnd v mask < modulus := by
  have hm : (0xFFFFFFFF : Nat) < 2 ^ 32 := by decide
  cases v with
  | ofNat m =>
      have h : m &&& 0xFFFFFFFF < 2 ^ 32 := Nat.lt_of_le_of_lt Nat.and_le_right hm
      exact ⟨Int.natCast_nonneg _, Int.ofNat_lt.2 h⟩
  | negSucc n =>
      have h : withoutBits 0xFFFFFFFF n < 2 ^ 32 :=
        Nat.xor_lt_two_pow hm (Nat.lt_of_le_of_lt Nat.and_le_left hm)
      exact ⟨Int.natCast_nonneg _, Int.ofNat_lt.2 h⟩

/-- The last 32 bits of an integer, read without a sign, are its residue. -/
theorem bitAnd_mask (v : Int) : bitAnd v mask = v % modulus := by
  obtain ⟨hlow, hhigh⟩ := bitAnd_mask_bounds v
  have hb : bits (bitAnd v mask) = bits v := by
    rw [bits_bitAnd, bits_mask, BitVec.and_allOnes]
  have hn := congrArg BitVec.toNat hb
  rw [bits, bits, BitVec.toNat_ofInt, BitVec.toNat_ofInt] at hn
  simp only [modulus] at hhigh ⊢
  omega

/-- Wrapping masks an integer, and reads the highest of the bits that are left as a sign. -/
theorem wrap_eq_masked (v : Int) :
    wrap v = if greatest < bitAnd v mask then bitAnd v mask - modulus else bitAnd v mask := by
  rw [bitAnd_mask, wrap, Int.bmod_def]
  have half : ((modulus : Int) + 1) / 2 = greatest + 1 := by decide
  rw [half]
  by_cases h : greatest < v % modulus
  · rw [if_pos h, if_neg (by omega)]
  · rw [if_neg h, if_pos (by omega)]

example : wrap 0x7FFFFFFF = 0x7FFFFFFF ∧ wrap 0x80000000 = -0x80000000 := by decide

/-! ## Bits of integers of unbounded width -/

theorem testBit_withoutBits (m n i : Nat) :
    (withoutBits m n).testBit i = (m.testBit i && !n.testBit i) := by
  rw [withoutBits, Nat.testBit_xor, Nat.testBit_and]
  cases m.testBit i <;> cases n.testBit i <;> rfl

section
variable (a b : Int) (i : Nat)

theorem testBit_bitAnd : (bitAnd a b).testBit i = (a.testBit i && b.testBit i) := by
  cases a <;> cases b <;>
    simp only [bitAnd, Int.testBit, testBit_withoutBits, Nat.testBit_and, Nat.testBit_or,
      Bool.not_or, Bool.and_comm]

theorem testBit_bitOr : (bitOr a b).testBit i = (a.testBit i || b.testBit i) := by
  cases a <;> cases b <;>
    simp only [bitOr, Int.testBit, testBit_withoutBits, Nat.testBit_and, Nat.testBit_or,
      Bool.not_and, Bool.not_not, Bool.or_comm]

theorem testBit_bitXor : (bitXor a b).testBit i = (a.testBit i ^^ b.testBit i) := by
  cases a <;> cases b <;>
    simp only [bitXor, Int.testBit, Nat.testBit_xor, Bool.not_xor, Bool.xor_not, Bool.not_not]

theorem testBit_bitNot : (bitNot a).testBit i = !a.testBit i := by
  cases a with
  | ofNat m =>
      have h : bitNot (.ofNat m) = .negSucc m := by
        rw [bitNot, Int.negSucc_eq, Int.ofNat_eq_natCast]
        omega
      rw [h]
      rfl
  | negSucc n =>
      have h : bitNot (.negSucc n) = .ofNat n := by
        rw [bitNot, Int.negSucc_eq, Int.ofNat_eq_natCast]
        omega
      rw [h]
      exact (Bool.not_not _).symm

end

/-! ## Computations -/

/-- A computation on integers of any size. It has no shift to the right, which would bring bits
into the word that lie above it. -/
inductive Formula where
  | value (v : Int)
  | add (left right : Formula)
  | sub (left right : Formula)
  | mul (left right : Formula)
  | and (left right : Formula)
  | or (left right : Formula)
  | xor (left right : Formula)
  | not (operand : Formula)
  | shiftLeft (operand : Formula) (count : Nat)

/-- The result of a computation, in which `finish` is applied to the result of every operation. -/
def Formula.result (finish : Int → Int) : Formula → Int
  | .value v => v
  | .add left right => finish (left.result finish + right.result finish)
  | .sub left right => finish (left.result finish - right.result finish)
  | .mul left right => finish (left.result finish * right.result finish)
  | .and left right => finish (bitAnd (left.result finish) (right.result finish))
  | .or left right => finish (bitOr (left.result finish) (right.result finish))
  | .xor left right => finish (bitXor (left.result finish) (right.result finish))
  | .not operand => finish (bitNot (operand.result finish))
  | .shiftLeft operand count => finish (operand.result finish <<< count)

/-- Wrapping after every operation leaves the bits of the word as they are without it. -/
theorem Formula.bits_result (formula : Formula) :
    bits (formula.result wrap) = bits (formula.result id) := by
  induction formula with
  | value v => rfl
  | add left right hl hr => simp only [result, id, bits_wrap, bits_add, hl, hr]
  | sub left right hl hr => simp only [result, id, bits_wrap, bits_sub, hl, hr]
  | mul left right hl hr => simp only [result, id, bits_wrap, bits_mul, hl, hr]
  | and left right hl hr => simp only [result, id, bits_wrap, bits_bitAnd, hl, hr]
  | or left right hl hr => simp only [result, id, bits_wrap, bits_bitOr, hl, hr]
  | xor left right hl hr => simp only [result, id, bits_wrap, bits_bitXor, hl, hr]
  | not operand h => simp only [result, id, bits_wrap, bits_bitNot, h]
  | shiftLeft operand count h => simp only [result, id, bits_wrap, bits_shl, h]

theorem Formula.wrap_result (formula : Formula) :
    wrap (formula.result wrap) = wrap (formula.result id) :=
  wrap_eq_wrap_iff.2 formula.bits_result

end RegisterMachine.Word

namespace RegisterMachine

/-! ## Storing -/

section
variable {a b : Int} (h : Word.wrap a = Word.wrap b)
include h

theorem Cpu.write_of_wrap_eq (cpu : Cpu) (r : Register) : cpu.write r a = cpu.write r b := by
  rw [write, write, h]

theorem Cpu.writeAt_of_wrap_eq (cpu : Cpu) (index : Int) :
    cpu.writeAt index a = cpu.writeAt index b := by
  simp only [writeAt, write_of_wrap_eq h]

theorem Memory.write_of_wrap_eq (memory : Memory) (address : Int) :
    memory.write address a = memory.write address b := by
  simp only [write, h]

end

/-- Wrapping takes an integer to the one word that is congruent to it modulo 2 ^ 32: it masks the
integer and reads the highest bit as a sign. A second time it changes nothing, and it leaves just
the words as they are. It can be applied to the operands first in a sum, a difference, a product, a
shift to the left, and in the operations that combine the bits of integers of any size place by
place. So a value that is computed by such operations is stored in a register or in a cell as the
same word whether it is wrapped at the end only or after every operation. -/
theorem Word.wrap_once_suffices :
    (∀ v w : Int,
      w = wrap v ↔ (-2 ^ 31 ≤ w ∧ w ≤ 2 ^ 31 - 1) ∧ w % 2 ^ 32 = v % 2 ^ 32) ∧
    (∀ v : Int, wrap (wrap v) = wrap v ∧ (wrap v = v ↔ -2 ^ 31 ≤ v ∧ v ≤ 2 ^ 31 - 1)) ∧
    (∀ v : Int, wrap v =
      if 2 ^ 31 - 1 < bitAnd v 0xFFFFFFFF then bitAnd v 0xFFFFFFFF - 2 ^ 32
      else bitAnd v 0xFFFFFFFF) ∧
    (∀ (a b : Int) (i : Nat),
      (bitAnd a b).testBit i = (a.testBit i && b.testBit i) ∧
      (bitOr a b).testBit i = (a.testBit i || b.testBit i) ∧
      (bitXor a b).testBit i = (a.testBit i ^^ b.testBit i) ∧
      (bitNot a).testBit i = !a.testBit i) ∧
    (∀ a b : Int,
      wrap (a + b) = wrap (wrap a + wrap b) ∧
      wrap (a - b) = wrap (wrap a - wrap b) ∧
      wrap (a * b) = wrap (wrap a * wrap b) ∧
      wrap (bitAnd a b) = wrap (bitAnd (wrap a) (wrap b)) ∧
      wrap (bitOr a b) = wrap (bitOr (wrap a) (wrap b)) ∧
      wrap (bitXor a b) = wrap (bitXor (wrap a) (wrap b)) ∧
      wrap (bitNot a) = wrap (bitNot (wrap a)) ∧
      ∀ count : Nat, wrap (a <<< count) = wrap (wrap a <<< count)) ∧
    ∀ (formula : Formula) (index : Int),
      (∀ cpu : Cpu,
        cpu.writeAt index (formula.result id) = cpu.writeAt index (formula.result wrap)) ∧
      ∀ memory : Memory,
        memory.write index (formula.result id) = memory.write index (formula.result wrap) := by
  have range {v : Int} : inRange v = true ↔ -2 ^ 31 ≤ v ∧ v ≤ 2 ^ 31 - 1 := inRange_iff
  have size : (modulus : Int) = 2 ^ 32 := by decide
  refine ⟨fun v w => ?_, fun v => ⟨wrap_wrap v, wrap_eq_self_iff.trans range⟩, fun v => ?_,
    fun a b i => ⟨testBit_bitAnd a b i, testBit_bitOr a b i, testBit_bitXor a b i,
      testBit_bitNot a i⟩, fun a b => ?_, fun formula index => ?_⟩
  · rw [eq_wrap_iff, range, size]
  · rw [← size]
    exact wrap_eq_masked v
  · simp only [wrap_eq_wrap_iff, bits_add, bits_sub, bits_mul, bits_bitAnd, bits_bitOr,
      bits_bitXor, bits_bitNot, bits_shl, bits_wrap, implies_true, and_self]
  · have h := formula.wrap_result.symm
    exact ⟨fun cpu => cpu.writeAt_of_wrap_eq h index, fun memory => memory.write_of_wrap_eq h index⟩

end RegisterMachine
