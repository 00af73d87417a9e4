import RegisterMachine.Text.Digit
import RegisterMachine.Text.Numeral

/-!
# Integers on the command line

Whole numbers with digits of any script, single underscores between digits, a sign, and blanks
around them.
-/

namespace RegisterMachine.Text

def isPadding (c : Char) : Bool :=
  isBlank c && !isSeparator c

def stripPadding (text : List Char) : List Char :=
  ((text.dropWhile isPadding).reverse.dropWhile isPadding).reverse

def valueOfDigits (digits : List Nat) : Nat :=
  digits.foldl (fun value digit => 10 * value + digit) 0

/-- The integer that a text denotes. Between two underscores, and at either side of one, there is
at least one digit. -/
def integer? (text : List Char) : Option Int :=
  let (negative, unsigned) := takeSign (stripPadding text)
  let groups := unsigned.splitOn '_'
  if groups.any (·.isEmpty) || maxDigits < groups.flatten.length then none
  else
    (groups.flatten.mapM digitValue?).map fun digits =>
      let magnitude : Int := valueOfDigits digits
      if negative then -magnitude else magnitude

/-- Whether a text reads as a negative number: a minus, then digits with at most one point in
front of or among them. A line feed may follow. -/
def isNegativeNumber (text : List Char) : Bool :=
  match text with
  | '-' :: unsigned =>
      let number := if unsigned.getLast? = some '\n' then unsigned.dropLast else unsigned
      let whole := number.takeWhile isAnyDigit
      match number.dropWhile isAnyDigit with
      | [] => !whole.isEmpty
      | '.' :: fraction => !fraction.isEmpty && fraction.all isAnyDigit
      | _ => false
  | _ => false

end RegisterMachine.Text
