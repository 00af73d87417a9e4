import RegisterMachine.Word.Numeral

/-!
# Unreadable numerals

The texts in the form of a numeral that denote no number; and the digits with which the machine
writes its numbers.
-/

namespace RegisterMachine.Text

/-- Whether a text has the form of a numeral and still denotes no number: it has too many digits, or
a separator stands beside them. -/
def Unreadable (text : List Char) : Prop :=
  ∃ numeral, Numeral.ofText? text = some numeral ∧
    (maxDigits < numeral.digits.length ∨
      ∃ c ∈ numeral.before ++ numeral.after, isSeparator c = true)

theorem Numeral.value_eq_error_iff (numeral : Numeral) (text : List Char) :
    (∃ e, numeral.value text = .error e) ↔
      maxDigits < numeral.digits.length ∨
        ∃ c ∈ numeral.before ++ numeral.after, isSeparator c = true := by
  have hs : (∃ c ∈ numeral.before ++ numeral.after, isSeparator c = true) ↔
      numeral.before.any isSeparator = true ∨ numeral.after.any isSeparator = true := by
    rw [← List.any_eq_true, List.any_append, Bool.or_eq_true]
  rw [hs]
  unfold value
  by_cases hb : numeral.before.any isSeparator = true
  · rw [if_pos hb]
    exact iff_of_true ⟨_, rfl⟩ (.inr (.inl hb))
  · rw [if_neg hb]
    by_cases hl : maxDigits < numeral.digits.length
    · rw [if_pos hl]
      exact iff_of_true ⟨_, rfl⟩ (.inl hl)
    · rw [if_neg hl]
      by_cases ha : numeral.after.any isSeparator = true
      · rw [if_pos ha]
        exact iff_of_true ⟨_, rfl⟩ (.inr (.inr ha))
      · rw [if_neg ha]
        refine iff_of_false ?_ ?_
        · intro h
          obtain ⟨e, he⟩ := h
          cases he
        · intro h
          rcases h with h | h | h
          · exact hl h
          · exact hb h
          · exact ha h

theorem isBlank_of_isDigit {c : Char} (h : c.isDigit = true) : isBlank c = false := by
  have hc : 48 ≤ c.toNat ∧ c.toNat ≤ 57 := by
    simpa [Char.isDigit, UInt32.le_iff_toNat_le] using h
  obtain ⟨low, high⟩ := hc
  simp only [isBlank, Bool.or_eq_false_iff, Bool.and_eq_false_iff, decide_eq_false_iff_not,
    beq_eq_false_iff_ne]
  omega

theorem isDigit_eq_false_of_isBlank {c : Char} (h : isBlank c = true) : c.isDigit = false := by
  rw [← Bool.not_eq_true]
  intro hd
  rw [isBlank_of_isDigit hd] at h
  cases h

theorem toList_toString_natCast (n : Nat) : (toString (n : Int)).toList = Nat.toDigits 10 n := by
  rw [Int.toString_eq_repr, Int.repr_eq_if, if_pos (Int.natCast_nonneg n), Int.toNat_natCast,
    Nat.toList_repr]

theorem toList_toString_of_neg {v : Int} (h : v < 0) :
    (toString v).toList = '-' :: Nat.toDigits 10 v.natAbs := by
  have hn : (-v).toNat = v.natAbs := by omega
  rw [Int.toString_eq_repr, Int.repr_eq_if, if_neg (by omega), hn, String.toList_append,
    Nat.toList_repr]
  rfl

end RegisterMachine.Text

namespace RegisterMachine.Word

theorem ofText_eq_error_iff (text : List Char) :
    (∃ e, ofText text = .error e) ↔ Text.Unreadable text := by
  unfold ofText Text.Unreadable
  cases hn : Text.Numeral.ofText? text with
  | none =>
      refine iff_of_false ?_ ?_
      · intro h
        obtain ⟨e, he⟩ := h
        cases he
      · intro h
        obtain ⟨numeral, h, -⟩ := h
        cases h
  | some numeral =>
      have hv := numeral.value_eq_error_iff text
      dsimp only
      constructor
      · intro h
        obtain ⟨e, he⟩ := h
        refine ⟨numeral, rfl, hv.1 ?_⟩
        cases hx : numeral.value text with
        | error e => exact ⟨e, rfl⟩
        | ok v =>
            rw [hx] at he
            cases he
      · intro h
        obtain ⟨numeral, h, hd⟩ := h
        cases h
        obtain ⟨e, he⟩ := hv.2 hd
        exact ⟨e, by rw [he]; rfl⟩

end RegisterMachine.Word
