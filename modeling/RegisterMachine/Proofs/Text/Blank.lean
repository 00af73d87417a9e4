import Mathlib.Data.List.DropRight
import RegisterMachine.Text.Blank

/-!
# Trimmed texts

Cutting the blanks off the ends of a text takes nothing else away, and a second time it changes
nothing. Where a text starts with a word, the word stays, and what follows it loses the blanks at
its end only.
-/

namespace RegisterMachine.Text

theorem trimEnd_isPrefix (text : List Char) : trimEnd text <+: text :=
  List.rdropWhile_prefix isBlank text

theorem trimStart_trimStart (text : List Char) : trimStart (trimStart text) = trimStart text :=
  List.dropWhile_idempotent isBlank text

theorem trimEnd_trimEnd (text : List Char) : trimEnd (trimEnd text) = trimEnd text :=
  List.rdropWhile_idempotent isBlank text

/-- Cutting blanks off the end brings no blank to the front. -/
theorem trimStart_trim (text : List Char) : trimStart (trim text) = trim text := by
  have hp : trim text <+: trimStart text := trimEnd_isPrefix (trimStart text)
  have hs : trimStart (trimStart text) = trimStart text := trimStart_trimStart text
  cases ht : trim text with
  | nil => rfl
  | cons c rest =>
      rw [ht] at hp
      obtain ⟨back, hb⟩ := hp
      rw [← hb] at hs
      by_cases hc : isBlank c = true
      · have hl := congrArg List.length hs
        have hle := List.length_dropWhile_le (p := isBlank) (rest ++ back)
        simp only [trimStart, List.cons_append, List.dropWhile_cons, hc, if_true,
          List.length_cons] at hl hle
        omega
      · simp only [trimStart, List.dropWhile_cons, hc]
        rfl

@[simp] theorem trim_trim (text : List Char) : trim (trim text) = trim text := by
  calc
    trim (trim text) = trimEnd (trim text) := congrArg trimEnd (trimStart_trim text)
    _ = trim text := trimEnd_trimEnd (trimStart text)

theorem removeBlanks_trimEnd (text : List Char) :
    removeBlanks (trimEnd text) = removeBlanks text := by
  have hs : trimEnd text ++ text.rtakeWhile isBlank = text := List.rdropWhile_append_rtakeWhile
  have hb : removeBlanks (text.rtakeWhile isBlank) = [] := by
    refine List.filter_eq_nil_iff.2 fun c hc => ?_
    simp [List.mem_rtakeWhile_imp hc]
  calc
    removeBlanks (trimEnd text)
        = removeBlanks (trimEnd text) ++ removeBlanks (text.rtakeWhile isBlank) := by simp [hb]
    _ = removeBlanks (trimEnd text ++ text.rtakeWhile isBlank) := by simp [removeBlanks]
    _ = removeBlanks text := by rw [hs]

theorem trimStart_append_of_blank {lead : List Char} (h : ∀ c ∈ lead, isBlank c = true)
    (text : List Char) : trimStart (lead ++ text) = trimStart text :=
  List.dropWhile_append_of_pos h

/-- Whatever is cut off the ends of a text is blank. -/
theorem exists_append_trim (text : List Char) :
    ∃ lead trail, (∀ c ∈ lead, isBlank c = true) ∧ (∀ c ∈ trail, isBlank c = true) ∧
      text = lead ++ trim text ++ trail := by
  refine ⟨text.takeWhile isBlank, (trimStart text).rtakeWhile isBlank,
    fun c hc => List.mem_takeWhile_imp hc, fun c hc => List.mem_rtakeWhile_imp hc, ?_⟩
  have hs : trim text ++ (trimStart text).rtakeWhile isBlank = trimStart text :=
    List.rdropWhile_append_rtakeWhile
  rw [List.append_assoc, hs, trimStart, List.takeWhile_append_dropWhile]

theorem trim_eq_nil_iff {text : List Char} : trim text = [] ↔ ∀ c ∈ text, isBlank c = true := by
  constructor
  · intro h
    obtain ⟨lead, trail, hl, ht, he⟩ := exists_append_trim text
    rw [he, h]
    intro c hc
    simp only [List.append_nil, List.mem_append] at hc
    exact hc.elim (hl c) (ht c)
  · intro h
    rw [trim, trimStart, List.dropWhile_eq_nil_iff.2 h]
    rfl

/-- What is left of a text starts with a word, unless nothing is left. -/
theorem firstWord_trim_ne_nil {text : List Char} (h : trim text ≠ []) :
    firstWord (trim text) ≠ [] := by
  obtain ⟨c, rest, he⟩ := List.exists_cons_of_ne_nil h
  have hs : trimStart (c :: rest) = c :: rest := he ▸ trimStart_trim text
  have hc : isBlank c = false := by
    simpa using List.dropWhile_eq_self_iff.1 hs (Nat.succ_pos _)
  simp [he, firstWord, hc]

/-- Cutting blanks off the end of a text that starts with a blank leaves that blank or nothing. -/
theorem head?_trimEnd {text : List Char} (h : text.head?.all isBlank) :
    (trimEnd text).head?.all isBlank := by
  cases he : trimEnd text with
  | nil => rfl
  | cons c rest =>
      obtain ⟨back, hb⟩ := he ▸ trimEnd_isPrefix text
      rw [← hb] at h
      exact h

/-! ## Words -/

def words (text : List Char) : List (List Char) :=
  (text.splitOnP isBlank).filter (!·.isEmpty)

/-! ## A front of one kind -/

section
variable {p : Char → Bool} {front rest : List Char} (hf : ∀ c ∈ front, p c = true)
  (hr : rest.head?.all (!p ·))
include hf hr

/-- Characters of one kind end where another kind or nothing follows. -/
theorem takeWhile_append_of_stop : (front ++ rest).takeWhile p = front := by
  have ht : rest.takeWhile p = [] := by
    cases rest with
    | nil => rfl
    | cons c tail => simpa using hr
  rw [List.takeWhile_append_of_pos hf, ht, List.append_nil]

theorem dropWhile_append_of_stop : (front ++ rest).dropWhile p = rest := by
  rw [List.dropWhile_append_of_pos hf]
  cases rest with
  | nil => rfl
  | cons c tail => simpa using hr

end

/-! ## A word in front -/

section
variable {word : List Char} (hw : ∀ c ∈ word, isBlank c = false)
include hw

theorem removeBlanks_of_word : removeBlanks word = word :=
  List.filter_eq_self.2 fun c hc => by simp [hw c hc]

theorem trimStart_of_word : trimStart word = word := by
  cases word with
  | nil => rfl
  | cons c tail => simp [trimStart, hw c List.mem_cons_self]

theorem trimEnd_append_of_word (rest : List Char) :
    trimEnd (word ++ rest) = word ++ trimEnd rest := by
  -- Seen from its end, the word stops the cutting even if nothing is left of the rest.
  have hr : word.reverse.dropWhile isBlank = word.reverse :=
    trimStart_of_word fun c hc => hw c (List.mem_reverse.1 hc)
  simp only [trimEnd, List.reverse_append, List.dropWhile_append, hr]
  split
  next he => simp [List.isEmpty_iff.1 he]
  next => simp

theorem trim_append_of_word (hn : word ≠ []) (rest : List Char) :
    trim (word ++ rest) = word ++ trimEnd rest := by
  obtain ⟨c, tail, rfl⟩ := List.exists_cons_of_ne_nil hn
  have hs : trimStart (c :: tail ++ rest) = c :: tail ++ rest := by
    simp [trimStart, hw c List.mem_cons_self]
  rw [trim, hs]
  exact trimEnd_append_of_word hw rest

variable {rest : List Char} (hr : rest.head?.all isBlank)
include hr

/-- The word ends where a blank or nothing follows. -/
theorem firstWord_append_of_word : firstWord (word ++ rest) = word :=
  takeWhile_append_of_stop (by simpa using hw) (by simpa using hr)

theorem dropWhile_append_of_word : (word ++ rest).dropWhile (!isBlank ·) = rest :=
  dropWhile_append_of_stop (by simpa using hw) (by simpa using hr)

theorem head?_words_append_of_word (hn : word ≠ []) :
    (words (word ++ rest)).head? = some word := by
  cases rest with
  | nil => simp [words, List.splitOnP_eq_singleton hw, hn]
  | cons c tail =>
      have hc : isBlank c = true := by simpa using hr
      simp [words, List.splitOnP_append_cons_of_forall_mem hw c hc, hn]

end

end RegisterMachine.Text
