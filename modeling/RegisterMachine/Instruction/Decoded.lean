import RegisterMachine.Text.Blank

/-!
# Decoded instructions

An instruction is kept as text and cut into a mnemonic and argument tokens just before it
executes. Blanks end the mnemonic and mean nothing after it; commas part the arguments.
-/

namespace RegisterMachine

/-- The tokens of an argument list. A list of nothing but blanks has none; otherwise there is one
more than there are commas. -/
def splitArgumentChars (text : List Char) : List (List Char) :=
  let compact := Text.removeBlanks text
  if compact.isEmpty then [] else compact.splitOn ','

def splitArguments (text : String) : List String :=
  (splitArgumentChars text.toList).map String.ofList

structure Decoded where
  mnemonic : String
  arguments : List String
  raw : String
  deriving DecidableEq, Repr

namespace Decoded

def ofText (text : String) : Decoded :=
  let trimmed := Text.trim text.toList
  { mnemonic := String.ofList (Text.firstWord trimmed)
    arguments :=
      (splitArgumentChars (trimmed.dropWhile (!Text.isBlank ·))).map String.ofList
    raw := text }

/-- The instruction on one line without needless blanks. -/
def canonicalText (decoded : Decoded) : String :=
  if decoded.arguments.isEmpty then decoded.mnemonic
  else decoded.mnemonic ++ " " ++ ",".intercalate decoded.arguments

@[simp] theorem raw_ofText (text : String) : (ofText text).raw = text := rfl

end Decoded

end RegisterMachine
