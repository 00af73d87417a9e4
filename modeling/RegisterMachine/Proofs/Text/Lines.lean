import RegisterMachine.Text.Lines

/-!
# Lines and newlines

Unifying the newlines of a text does not change its lines. Lines that are joined by any one kind of
newline are found again when the text is cut, but for a last line with nothing in it.
-/

namespace RegisterMachine.Text

/-! ## Cutting at a break -/

section
variable {c : Char} {rest : List Char}

theorem lines_crlf (rest : List Char) : lines ('\r' :: '\n' :: rest) = [] :: lines rest := rfl

/-- Behind a carriage return it has to be known that no line feed follows. -/
theorem lines_cons (h : c = '\r' → rest.head? ≠ some '\n') :
    lines (c :: rest) = if isLineBreak c then [] :: lines rest else consLine c (lines rest) := by
  rw [lines]
  intro tail hc hr
  refine h hc ?_
  rw [hr]
  rfl

theorem lines_lf (rest : List Char) : lines ('\n' :: rest) = [] :: lines rest :=
  lines_cons fun h => absurd h (by decide)

theorem lines_cr (h : rest.head? ≠ some '\n') : lines ('\r' :: rest) = [] :: lines rest :=
  lines_cons fun _ => h

theorem lines_cons_of_not_break (hb : isLineBreak c = false) (rest : List Char) :
    lines (c :: rest) = consLine c (lines rest) := by
  have h : c = '\r' → rest.head? ≠ some '\n' := by
    rintro rfl
    cases hb
  rw [lines_cons h, hb]
  rfl

end

/-- Unified newlines cut a text into the same lines. -/
theorem lines_unifyNewlines (text : List Char) : lines (unifyNewlines text) = lines text := by
  -- The cases are those of `unifyNewlines`: both kinds of `\r` become `\n`, which is a break too.
  induction text using unifyNewlines.induct with
  | case1 => rfl
  | case2 rest ih => rw [unifyNewlines, lines_crlf, lines_lf, ih]
  | case3 rest hn ih =>
      have hr : rest.head? ≠ some '\n' := by
        intro hh
        obtain ⟨tail, ht⟩ := List.head?_eq_some_iff.1 hh
        exact hn tail ht
      rw [unifyNewlines, lines_lf, lines_cr hr, ih]
      exact hn
  | case4 c rest hn hr ih =>
      have hc : c ≠ '\r' := hr
      rw [unifyNewlines, lines_cons fun h => (hc h).elim, lines_cons fun h => (hc h).elim, ih]
      · exact hn
      · exact hr

/-! ## Joining -/

/-- The texts that stand between the lines of a file. -/
def newlines : List (List Char) :=
  [['\n'], ['\r', '\n'], ['\r']]

section
variable {line : List Char} (hl : ∀ c ∈ line, isLineBreak c = false)
include hl

theorem lines_of_line : lines line = dropEmptyLast [line] := by
  induction line with
  | nil => rfl
  | cons c tail ih =>
      have ht := ih fun d hd => hl d (List.mem_cons_of_mem c hd)
      rw [lines_cons_of_not_break (hl c List.mem_cons_self), ht]
      cases tail <;> simp [dropEmptyLast, consLine]

/-- A line is found in front of a newline. Only a carriage return has to be told from the newline
of two characters. -/
theorem lines_append_newline {newline rest : List Char} (hn : newline ∈ newlines)
    (hr : newline = ['\r'] → rest.head? ≠ some '\n') :
    lines (line ++ newline ++ rest) = line :: lines rest := by
  induction line with
  | nil =>
      simp only [newlines, List.mem_cons, List.not_mem_nil, or_false] at hn
      rcases hn with rfl | rfl | rfl
      · exact lines_lf rest
      · exact lines_crlf rest
      · exact lines_cr (hr rfl)
  | cons c tail ih =>
      have ht := ih fun d hd => hl d (List.mem_cons_of_mem c hd)
      rw [List.cons_append, List.cons_append,
        lines_cons_of_not_break (hl c List.mem_cons_self), ht]
      rfl

end

section
variable {pieces : List (List Char)} (hp : ∀ line ∈ pieces, ∀ c ∈ line, isLineBreak c = false)
include hp

/-- No line feed stands in front of lines that are joined by carriage returns. -/
theorem head?_intercalate_cr : (['\r'].intercalate pieces).head? ≠ some '\n' := by
  cases pieces with
  | nil => simp
  | cons line rest =>
      cases line with
      | cons c tail =>
          have hc : isLineBreak c = false := hp (c :: tail) List.mem_cons_self c List.mem_cons_self
          have hn : c ≠ '\n' := by
            rintro rfl
            cases hc
          cases rest <;> simpa [List.intercalate_cons_cons] using hn
      | nil => cases rest <;> simp [List.intercalate_cons_cons]

/-- Cutting finds the lines that were joined. -/
theorem lines_intercalate {newline : List Char} (hn : newline ∈ newlines) :
    lines (newline.intercalate pieces) = dropEmptyLast pieces := by
  induction pieces with
  | nil => rfl
  | cons line rest ih =>
      have hl : ∀ c ∈ line, isLineBreak c = false := hp line List.mem_cons_self
      have hrest : ∀ piece ∈ rest, ∀ c ∈ piece, isLineBreak c = false := fun piece h =>
        hp piece (List.mem_cons_of_mem line h)
      cases rest with
      | nil => simpa using lines_of_line hl
      | cons next others =>
          rw [List.intercalate_cons_cons, lines_append_newline hl hn, ih hrest]
          · simp only [dropEmptyLast, List.getLast?_cons_cons, List.dropLast_cons_cons]
            split <;> rfl
          · rintro rfl
            exact head?_intercalate_cr hrest

end

end RegisterMachine.Text
