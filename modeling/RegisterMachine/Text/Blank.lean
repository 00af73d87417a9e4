/-!
# Blank characters

The white space that separates the tokens of a source text, and cutting it off the ends
of a line.
-/

namespace RegisterMachine.Text

/-- White space: the Unicode white-space characters and the separators U+001C to U+001F. -/
def isBlank (c : Char) : Bool :=
  let n := c.toNat
  (0x09 ≤ n && n ≤ 0x0D) || (0x1C ≤ n && n ≤ 0x20) || n == 0x85 || n == 0xA0 || n == 0x1680 ||
    (0x2000 ≤ n && n ≤ 0x200A) || n == 0x2028 || n == 0x2029 || n == 0x202F || n == 0x205F ||
    n == 0x3000

theorem isBlank_of_isWhitespace
    {c : Char} (h : c.isWhitespace = true) :
    isBlank c = true := by
  simp only [Char.isWhitespace, Bool.or_eq_true, decide_eq_true_eq] at h
  rcases h with ((h | h) | h) | h <;> subst h <;> decide

def trimStart (text : List Char) : List Char :=
  text.dropWhile isBlank

def trimEnd (text : List Char) : List Char :=
  (text.reverse.dropWhile isBlank).reverse

def trim (text : List Char) : List Char :=
  trimEnd (trimStart text)

@[simp] theorem trim_nil : trim [] = [] := rfl

/-- The characters up to the first blank. -/
def firstWord (text : List Char) : List Char :=
  text.takeWhile (!isBlank ·)

def removeBlanks (text : List Char) : List Char :=
  text.filter (!isBlank ·)

theorem isBlank_eq_false_of_mem_removeBlanks
    {text : List Char} {c : Char} (h : c ∈ removeBlanks text) :
    isBlank c = false := by
  simpa using (List.mem_filter.1 h).2

end RegisterMachine.Text
