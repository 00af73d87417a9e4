import RegisterMachine.Text.Blank
import RegisterMachine.Text.Quoted

/-!
# Numerals

Decimal numerals as they are written: blanks, a sign, ASCII digits, blanks. A text has the form
of a numeral or it has not; of those that have, some still denote no number, because they are too
long or because a separator U+001C to U+001F stands beside the digits. In the same way an integer
with too many digits is not written.
-/

namespace RegisterMachine.Text

inductive NumeralError where
  | tooLong (digits : Nat)
  | unreadable (text : List Char)
  deriving DecidableEq, Repr

/-- The most digits a numeral may have, leading zeros included. -/
def maxDigits : Nat := 4300

def tooManyDigits (remark : String) : String :=
  s!"Exceeds the limit ({maxDigits} digits) for integer string conversion{remark}; " ++
    "use sys.set_int_max_str_digits() to increase the limit"

/-- The least natural number that has more digits than a numeral. -/
@[irreducible] def unwritable : Nat := Nat.pow 10 maxDigits

/-- Whether an integer has no more digits than a numeral. -/
def isWritable (v : Int) : Bool :=
  v.natAbs < unwritable

def maxQuoted : Nat := 200

def NumeralError.message : NumeralError → String
  | .tooLong digits => tooManyDigits s!": value has {digits} digits"
  | .unreadable text =>
      "invalid literal for int() with base 10: " ++
        String.ofList ((quoteChars text).take maxQuoted)

structure Numeral where
  before : List Char
  negative : Bool
  digits : List Char
  after : List Char
  deriving DecidableEq, Repr

/-- Takes a sign off a text. The first component tells whether it was a minus. -/
def takeSign : List Char → Bool × List Char
  | '-' :: rest => (true, rest)
  | '+' :: rest => (false, rest)
  | text => (false, text)

def Numeral.ofText? (text : List Char) : Option Numeral :=
  let (negative, unsigned) := takeSign (trimStart text)
  let digits := unsigned.takeWhile Char.isDigit
  let after := unsigned.dropWhile Char.isDigit
  if digits.isEmpty || !after.all isBlank then none
  else some { before := text.takeWhile isBlank, negative, digits, after }

def signedValue (negative : Bool) (digits : List Char) : Int :=
  let magnitude : Int := Nat.ofDigitChars 10 digits 0
  if negative then -magnitude else magnitude

/-- The separators that count as blanks but not beside digits. -/
def isSeparator (c : Char) : Bool :=
  0x1C ≤ c.toNat && c.toNat ≤ 0x1F

/-- The number a numeral denotes. A separator in front of it is noticed before its length, one
behind it after. -/
def Numeral.value (numeral : Numeral) (text : List Char) : Except NumeralError Int :=
  if numeral.before.any isSeparator then .error (.unreadable text)
  else if maxDigits < numeral.digits.length then .error (.tooLong numeral.digits.length)
  else if numeral.after.any isSeparator then .error (.unreadable text)
  else .ok (signedValue numeral.negative numeral.digits)

theorem isWritable_iff {v : Int} : isWritable v = true ↔ v.natAbs < unwritable := by
  simp [isWritable]

theorem isWritable_neg_unwritable : isWritable (-(unwritable : Int)) = false := by
  simp [isWritable]

theorem pow_le_unwritable {digits : Nat} (h : digits ≤ maxDigits) :
    Nat.pow 10 digits ≤ unwritable := by
  unfold unwritable
  generalize maxDigits = most at h ⊢
  exact Nat.pow_le_pow_right (Nat.succ_pos 9) h

/-- A number with no more digits than a numeral can be written. -/
theorem isWritable_of_natAbs_lt_pow
    {v : Int} {digits : Nat} (hd : digits ≤ maxDigits) (h : v.natAbs < Nat.pow 10 digits) :
    isWritable v = true :=
  isWritable_iff.2 (Nat.lt_of_lt_of_le h (pow_le_unwritable hd))

end RegisterMachine.Text
