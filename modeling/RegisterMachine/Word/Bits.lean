/-!
# Bitwise operations

Integers read as two's complement of unbounded width: a negative number has all the bits that
its complement `-v - 1` lacks.
-/

namespace RegisterMachine.Word

/-- The bits of `m` that `n` lacks. -/
def withoutBits (m n : Nat) : Nat :=
  m ^^^ (m &&& n)

def bitAnd : Int → Int → Int
  | .ofNat m, .ofNat n => .ofNat (m &&& n)
  | .ofNat m, .negSucc n => .ofNat (withoutBits m n)
  | .negSucc m, .ofNat n => .ofNat (withoutBits n m)
  | .negSucc m, .negSucc n => .negSucc (m ||| n)

def bitOr : Int → Int → Int
  | .ofNat m, .ofNat n => .ofNat (m ||| n)
  | .ofNat m, .negSucc n => .negSucc (withoutBits n m)
  | .negSucc m, .ofNat n => .negSucc (withoutBits m n)
  | .negSucc m, .negSucc n => .negSucc (m &&& n)

def bitXor : Int → Int → Int
  | .ofNat m, .ofNat n => .ofNat (m ^^^ n)
  | .ofNat m, .negSucc n => .negSucc (m ^^^ n)
  | .negSucc m, .ofNat n => .negSucc (m ^^^ n)
  | .negSucc m, .negSucc n => .ofNat (m ^^^ n)

def bitNot (v : Int) : Int :=
  -v - 1

/-- A shift uses the last five bits of its count. -/
def shiftCount (count : Int) : Nat :=
  (count % 32).toNat

def shiftLeft (v count : Int) : Int :=
  v <<< shiftCount count

/-- The shift to the right keeps the sign. -/
def shiftRight (v count : Int) : Int :=
  v >>> shiftCount count

theorem shiftCount_lt (count : Int) : shiftCount count < 32 := by
  unfold shiftCount
  omega

@[simp] theorem bitNot_bitNot (v : Int) : bitNot (bitNot v) = v := by
  unfold bitNot
  omega

end RegisterMachine.Word
