import RegisterMachine.Proofs.Text.Grammar

/-!
# Words read and written

What a text is read as, told by the grammar of numerals: no word, the word that it denotes, or an
error. The text of a word, with padding on both sides, is read as that word.
-/

namespace RegisterMachine.Word

section
variable {text : List Char}

theorem ofText_of_not_spelled (h : ¬∃ numeral : Text.Numeral, numeral.Spells text) :
    ofText text = .ok none := by
  unfold ofText
  split
  · rfl
  next numeral hn => exact (h ⟨numeral, Text.Numeral.ofText?_eq_some_iff.1 hn⟩).elim

theorem ofText_eq_error_iff_spells :
    (∃ e, ofText text = .error e) ↔
      ∃ numeral : Text.Numeral, numeral.Spells text ∧
        (Text.maxDigits < numeral.digits.length ∨
          ∃ c ∈ numeral.before ++ numeral.after, Text.isSeparator c = true) := by
  rw [ofText_eq_error_iff, Text.Unreadable]
  simp only [Text.Numeral.ofText?_eq_some_iff]

/-- A numeral that is neither too long nor beside a separator is read as the number it denotes. -/
theorem ofText_of_spells {numeral : Text.Numeral} (h : numeral.Spells text)
    (hl : numeral.digits.length ≤ Text.maxDigits)
    (hs : ∀ c ∈ numeral.before ++ numeral.after, Text.isSeparator c = false) :
    ofText text = .ok (if inRange numeral.number then some numeral.number else none) := by
  have hbefore : numeral.before.any Text.isSeparator = false :=
    List.any_eq_false.2 fun c hc => by simp [hs c (List.mem_append_left _ hc)]
  have hafter : numeral.after.any Text.isSeparator = false :=
    List.any_eq_false.2 fun c hc => by simp [hs c (List.mem_append_right _ hc)]
  simp only [ofText, Text.Numeral.ofText?_of_spells h, Text.Numeral.value, hbefore, hafter,
    if_neg (Nat.not_lt.2 hl), Bool.false_eq_true, if_false, Except.map,
    Text.Numeral.signedValue_eq_number]

end

theorem digits_length_le {v : Int} (h : inRange v = true) :
    (Nat.toDigits 10 v.natAbs).length ≤ Text.maxDigits := by
  rw [inRange_iff] at h
  simp only [least, greatest] at h
  have hl : (Nat.toDigits 10 v.natAbs).length ≤ 10 :=
    (Nat.length_toDigits_le_iff (by decide) (by decide)).2 (by omega)
  exact Nat.le_trans hl (by decide)

/-- The text of a word is read as that word, also with padding on both sides. -/
theorem ofText_padded {v : Int} (h : inRange v = true) {before after : List Char}
    (hb : Text.IsPadding before) (ha : Text.IsPadding after) :
    ofText (before ++ ((toString v).toList ++ after)) = .ok (some v) := by
  have hs : ∀ c ∈ before ++ after, Text.isSeparator c = false :=
    List.forall_mem_append.2 ⟨fun c hc => (hb c hc).2, fun c hc => (ha c hc).2⟩
  rw [ofText_of_spells (Text.Numeral.spells_decimal v (fun c hc => (hb c hc).1)
    fun c hc => (ha c hc).1) (digits_length_le h) hs, Text.Numeral.number_decimal, if_pos h]

theorem ofText_toString {v : Int} (h : inRange v = true) :
    ofText (toString v).toList = .ok (some v) := by
  have hn : Text.IsPadding [] := nofun
  simpa using ofText_padded h hn hn

end RegisterMachine.Word
