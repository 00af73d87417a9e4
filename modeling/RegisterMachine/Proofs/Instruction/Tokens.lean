import RegisterMachine.Instruction.Decoded
import RegisterMachine.Instruction.Mnemonic
import RegisterMachine.Proofs.Text.Blank

/-!
# Argument tokens

A mnemonic, a space and any text decode to that mnemonic and the arguments in the text. The text is
itself the only argument exactly if it is a token: not empty, and without blanks and commas.
-/

namespace RegisterMachine

/-- Whether a text is one argument just as it stands. -/
def IsToken (text : String) : Prop :=
  text.toList ≠ [] ∧ ∀ c ∈ text.toList, Text.isBlank c = false ∧ c ≠ ','

instance : DecidablePred IsToken := fun text =>
  decidable_of_iff
    (!text.toList.isEmpty && text.toList.all fun c => !Text.isBlank c && c != ',')
    (by simp [IsToken])

/-! ## Splitting arguments -/

/-- A comma leaves at least two arguments. -/
theorem not_mem_of_splitOn_eq_singleton {compact text : List Char}
    (h : compact.splitOn ',' = [text]) : ',' ∉ compact := by
  intro hc
  obtain ⟨front, back, rfl⟩ := List.append_of_mem hc
  rw [List.splitOn_append_cons_self] at h
  have hl := congrArg List.length h
  have hf := List.length_pos_iff.2 (List.splitOn_ne_nil ',' front)
  have hb := List.length_pos_iff.2 (List.splitOn_ne_nil ',' back)
  simp only [List.length_append, List.length_singleton] at hl
  omega

theorem splitArgumentChars_eq_singleton {text : List Char} :
    splitArgumentChars text = [text] ↔
      text ≠ [] ∧ ∀ c ∈ text, Text.isBlank c = false ∧ c ≠ ',' := by
  constructor
  · intro h
    simp only [splitArgumentChars] at h
    split at h
    · cases h
    next hn =>
      have hi : [','].intercalate ((Text.removeBlanks text).splitOn ',') = Text.removeBlanks text :=
        List.intercalate_splitOn ','
      have hc : Text.removeBlanks text = text := by
        rw [← hi, h]
        simp [List.intercalate]
      have hcomma : ',' ∉ text := hc ▸ not_mem_of_splitOn_eq_singleton h
      rw [hc] at hn
      refine ⟨by simpa using hn, fun c hm => ⟨?_, ?_⟩⟩
      · exact Text.isBlank_eq_false_of_mem_removeBlanks (hc.symm ▸ hm)
      · rintro rfl
        exact hcomma hm
  · rintro ⟨hn, hall⟩
    have hc : Text.removeBlanks text = text := Text.removeBlanks_of_word fun c hm => (hall c hm).1
    have hs : text.splitOn ',' = [text] :=
      List.splitOnP_eq_singleton fun c hm => by simpa using (hall c hm).2
    simp [splitArgumentChars, hc, hn, hs]

theorem splitArguments_eq_singleton {text : String} :
    splitArguments text = [text] ↔ IsToken text := by
  rw [IsToken, ← splitArgumentChars_eq_singleton, splitArguments]
  constructor
  · intro h
    simpa using congrArg (List.map String.toList) h
  · intro h
    simp [h]

/-! ## Decoding -/

theorem Mnemonic.name_isToken (m : Mnemonic) : IsToken m.name := by
  rcases m with _ | _ | op | _ | _ | _ | _ | r | _ | _ | _ <;> (try cases op) <;> (try cases r) <;>
    decide

/-- Blanks, a word, and what comes behind it. -/
theorem Decoded.ofText_word {text : String} {lead word rest : List Char}
    (ht : text.toList = lead ++ word ++ rest) (hl : ∀ c ∈ lead, Text.isBlank c = true)
    (hn : word ≠ []) (hw : ∀ c ∈ word, Text.isBlank c = false)
    (hr : rest.head?.all Text.isBlank) :
    (ofText text).mnemonic = String.ofList word ∧
      (ofText text).arguments = (splitArgumentChars rest).map String.ofList := by
  have htrim : Text.trim text.toList = word ++ Text.trimEnd rest := by
    rw [ht, List.append_assoc, Text.trim, Text.trimStart_append_of_blank hl, ← Text.trim]
    exact Text.trim_append_of_word hw hn rest
  have hr' := Text.head?_trimEnd hr
  constructor
  · simp only [ofText, htrim, Text.firstWord_append_of_word hw hr']
  · simp only [ofText, htrim, Text.dropWhile_append_of_word hw hr', splitArgumentChars,
      Text.removeBlanks_trimEnd]

section
variable (m : Mnemonic) (text : String)

theorem Decoded.ofText_name :
    (ofText (m.name ++ " " ++ text)).mnemonic = m.name ∧
      (ofText (m.name ++ " " ++ text)).arguments = splitArguments text := by
  have hs : (m.name ++ " " ++ text).toList = [] ++ m.name.toList ++ ' ' :: text.toList := by simp
  have h := ofText_word hs nofun m.name_isToken.1 (fun c hc => (m.name_isToken.2 c hc).1) rfl
  rw [String.ofList_toList] at h
  exact h

theorem Decoded.mnemonic_ofText_name : (ofText (m.name ++ " " ++ text)).mnemonic = m.name :=
  (ofText_name m text).1

theorem Decoded.arguments_ofText_name :
    (ofText (m.name ++ " " ++ text)).arguments = splitArguments text :=
  (ofText_name m text).2

end

end RegisterMachine
