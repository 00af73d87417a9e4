import RegisterMachine.Crash

/-!
# Amounts

A number of cycles as it is set on a scale: whole, or a real number in binary form with 53
significant bits. A real number is cut off at its point, which is exact.
-/

namespace RegisterMachine.Playground

inductive Amount where
  | whole (n : Int)
  | real (x : Float)

structure RealFields where
  negative : Bool
  exponent : Nat
  fraction : Nat
  deriving DecidableEq, Repr

namespace RealFields

def fractionCount : Nat := 0x10000000000000

/-- The exponent field of infinite and undefined numbers. -/
def greatestExponent : Nat := 0x7FF

/-- The exponent field of numbers whose last significant bit counts one. -/
def unitExponent : Nat := 1075

def ofBits (bits : Nat) : RealFields :=
  { negative := 0x8000000000000000 ≤ bits
    exponent := bits / fractionCount % (greatestExponent + 1)
    fraction := bits % fractionCount }

/-- The size of a finite number without what follows its point. If the exponent field is zero the
number is less than one. -/
def magnitude (fields : RealFields) : Nat :=
  let significand := fractionCount + fields.fraction
  if fields.exponent = 0 then 0
  else if fields.exponent < unitExponent then
    significand / Nat.pow 2 (unitExponent - fields.exponent)
  else significand * Nat.pow 2 (fields.exponent - unitExponent)

/-- The whole number to which a real number is cut off. -/
def truncate (fields : RealFields) : Except Crash Int :=
  if fields.exponent = greatestExponent then
    .error (if fields.fraction = 0 then .infiniteAmount else .undefinedAmount)
  else
    let size : Int := fields.magnitude
    .ok (if fields.negative then -size else size)

end RealFields

def Amount.cycles : Amount → Except Crash Int
  | .whole n => .ok n
  | .real x => (RealFields.ofBits x.toBits.toNat).truncate

end RegisterMachine.Playground
