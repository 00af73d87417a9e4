import RegisterMachine.Text.Printable

/-!
# Quoted text

A text written between quotation marks on one line, with every character that would not show
written as an escape.
-/

namespace RegisterMachine.Text

/-- The number in lower-case hexadecimal digits, filled up with zeros to the width. -/
def hexadecimal (width n : Nat) : List Char :=
  let digits := Nat.toDigits 16 n
  List.replicate (width - digits.length) '0' ++ digits

/-- The mark around a quoted text: a single one, unless the text holds single marks and no
double one. -/
def quotationMark (text : List Char) : Char :=
  if text.contains '\x27' && !text.contains '\x22' then '\x22' else '\x27'

def escape (mark c : Char) : List Char :=
  if c = mark || c = '\\' then ['\\', c]
  else if c = '\n' then ['\\', 'n']
  else if c = '\r' then ['\\', 'r']
  else if c = '\t' then ['\\', 't']
  else if isPrintable c then [c]
  else if c.toNat < 0x100 then '\\' :: 'x' :: hexadecimal 2 c.toNat
  else if c.toNat < 0x10000 then '\\' :: 'u' :: hexadecimal 4 c.toNat
  else '\\' :: 'U' :: hexadecimal 8 c.toNat

def quoteChars (text : List Char) : List Char :=
  let mark := quotationMark text
  mark :: (text.flatMap (escape mark) ++ [mark])

def quote (text : String) : String :=
  String.ofList (quoteChars text.toList)

end RegisterMachine.Text
