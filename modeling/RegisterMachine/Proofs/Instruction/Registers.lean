import RegisterMachine.Proofs.Instruction.Roles
import RegisterMachine.Proofs.Instruction.Spelling
import RegisterMachine.Proofs.Text.Grammar

/-!
# Names of registers

A register is named by a letter and the digits of its number, with zeros in front of them or not. A
line feed may stand at the end, but never in an argument, which has no blanks. A text that is no
name or whose number is too large is a fault; a name with too many digits is a crash.
-/

namespace RegisterMachine

namespace Register

/-- A text is a name with these digits, and with a line feed behind them or none. -/
structure IsName (digits text : List Char) : Prop where
  isDigit : ∀ c ∈ digits, c.isDigit = true
  ne_nil : digits ≠ []
  text_eq : text = 'R' :: digits ∨ text = 'R' :: (digits ++ ['\n'])

/-- The number with some digits, each with the weight of its place. -/
def number (digits : List Char) : Nat :=
  Nat.ofDigits 10 (digits.reverse.map Text.digitValue)

/-! ## Taking a name apart -/

section
variable {text digits : List Char}

theorem isName_of_registerDigits? (h : registerDigits? text = some digits) :
    IsName digits text := by
  unfold registerDigits? at h
  split at h
  next suffix =>
    dsimp only at h
    generalize he : (if suffix.getLast? = some '\n' then suffix.dropLast else suffix) = front at h
    split at h
    · cases h
    next hn =>
      simp only [Bool.or_eq_true, List.isEmpty_iff, Bool.not_eq_true', not_or,
        Bool.not_eq_false, List.all_eq_true] at hn
      obtain rfl := Option.some.inj h
      refine ⟨hn.2, hn.1, ?_⟩
      split at he
      next hl => exact .inr (by rw [← he, List.dropLast_append_getLast? _ hl])
      next => exact .inl (by rw [he])
  next => cases h

theorem registerDigits?_of_isName (h : IsName digits text) :
    registerDigits? text = some digits := by
  have hall : digits.all Char.isDigit = true := List.all_eq_true.2 h.isDigit
  have hnil : digits.isEmpty = false := by simpa using h.ne_nil
  rcases h.text_eq with rfl | rfl
  · -- The last of the digits is no line feed.
    have hl : digits.getLast? ≠ some '\n' := by
      intro hl
      cases h.isDigit '\n' (List.mem_of_mem_getLast? hl)
    simp only [registerDigits?, if_neg hl, hall, hnil, Bool.not_true, Bool.or_self,
      Bool.false_eq_true, if_false]
  · simp only [registerDigits?, List.getLast?_concat, if_true, List.dropLast_concat, hall, hnil,
      Bool.not_true, Bool.or_self, Bool.false_eq_true, if_false]

theorem registerDigits?_eq_some_iff : registerDigits? text = some digits ↔ IsName digits text :=
  ⟨isName_of_registerDigits?, registerDigits?_of_isName⟩

theorem registerDigits?_eq_none_iff :
    registerDigits? text = none ↔ ¬∃ digits, IsName digits text := by
  simp only [← registerDigits?_eq_some_iff, Option.eq_none_iff_forall_ne_some, not_exists]

/-- The digits of a name are determined by it. -/
theorem IsName.exists_iff (h : IsName digits text) {P : List Char → Prop} :
    (∃ digits, IsName digits text ∧ P digits) ↔ P digits := by
  constructor
  · rintro ⟨other, ho, hp⟩
    have he := (registerDigits?_of_isName h).symm.trans (registerDigits?_of_isName ho)
    rwa [Option.some.inj he]
  · exact fun hp => ⟨digits, h, hp⟩

end

/-! ## Reading digits -/

def ofDigits (token : String) (digits : List Char) : Except (Failure Fault) Register :=
  if Text.maxDigits < digits.length then .error (.crash (.numeral (.tooLong digits.length)))
  else if h : number digits < registerCount then .ok ⟨number digits, h⟩
  else .error (.fault (.registerNumber token))

section
variable {token : String} {digits : List Char}

theorem ofDigits_eq_ok_iff {r : Register} :
    ofDigits token digits = .ok r ↔
      digits.length ≤ Text.maxDigits ∧ number digits = r.val := by
  unfold ofDigits
  split
  next hl => exact iff_of_false nofun fun hd => Nat.not_le.2 hl hd.1
  next hl =>
    split
    next hr => simp [Fin.ext_iff, Nat.not_lt.1 hl]
    next hr => exact iff_of_false nofun fun hd => hr (hd.2 ▸ r.isLt)

theorem ofDigits_eq_crash_iff {reason : Crash} :
    ofDigits token digits = .error (.crash reason) ↔
      Text.maxDigits < digits.length ∧ reason = .numeral (.tooLong digits.length) := by
  unfold ofDigits
  split
  next hl => simp [hl, eq_comm]
  next hl => split <;> simp [hl]

theorem ofDigits_eq_fault_iff {fault : Fault} :
    ofDigits token digits = .error (.fault fault) ↔
      (digits.length ≤ Text.maxDigits ∧ registerCount ≤ number digits) ∧
        fault = .registerNumber token := by
  unfold ofDigits
  split
  next hl => exact iff_of_false nofun fun hd => Nat.not_le.2 hl hd.1.1
  next hl =>
    split
    next hr => exact iff_of_false nofun fun hd => Nat.not_le.2 hr hd.1.2
    next hr => simp [Nat.not_lt.1 hl, Nat.not_lt.1 hr, eq_comm]

end

/-! ## Reading a token -/

section
variable {token : String}

theorem ofToken_of_isName {digits : List Char} (h : IsName digits token.toList) :
    ofToken token = ofDigits token digits := by
  simp only [ofToken, registerDigits?_of_isName h, Text.ofDigitChars_eq_ofDigits]
  rfl

theorem ofToken_of_not_isName (h : ¬∃ digits, IsName digits token.toList) :
    ofToken token = .error (.fault (.registerForm token)) := by
  simp only [ofToken, registerDigits?_eq_none_iff.2 h]

/-- Whatever else a token is read as, its digits are read as. -/
theorem ofToken_eq_iff {outcome : Except (Failure Fault) Register}
    (hn : outcome ≠ .error (.fault (.registerForm token))) :
    ofToken token = outcome ↔
      ∃ digits, IsName digits token.toList ∧ ofDigits token digits = outcome := by
  by_cases h : ∃ digits, IsName digits token.toList
  · obtain ⟨digits, h⟩ := h
    rw [h.exists_iff, ofToken_of_isName h]
  · rw [ofToken_of_not_isName h]
    exact iff_of_false hn.symm fun ⟨digits, hd, _⟩ => h ⟨digits, hd⟩

theorem ofToken_eq_ok_iff {r : Register} :
    ofToken token = .ok r ↔
      ∃ digits, IsName digits token.toList ∧ digits.length ≤ Text.maxDigits ∧
        number digits = r.val := by
  refine (ofToken_eq_iff ?_).trans ?_
  · nofun
  · simp only [ofDigits_eq_ok_iff]

theorem ofToken_eq_crash_iff {reason : Crash} :
    ofToken token = .error (.crash reason) ↔
      ∃ digits, IsName digits token.toList ∧ Text.maxDigits < digits.length ∧
        reason = .numeral (.tooLong digits.length) := by
  refine (ofToken_eq_iff ?_).trans ?_
  · nofun
  · simp only [ofDigits_eq_crash_iff]

theorem ofToken_eq_registerNumber_iff :
    ofToken token = .error (.fault (.registerNumber token)) ↔
      ∃ digits, IsName digits token.toList ∧ digits.length ≤ Text.maxDigits ∧
        registerCount ≤ number digits := by
  refine (ofToken_eq_iff ?_).trans ?_
  · nofun
  · simp only [ofDigits_eq_fault_iff, and_true]

theorem ofToken_eq_registerForm_iff :
    ofToken token = .error (.fault (.registerForm token)) ↔
      ¬∃ digits, IsName digits token.toList := by
  refine ⟨fun hf h => ?_, ofToken_of_not_isName⟩
  obtain ⟨digits, h⟩ := h
  rw [ofToken_of_isName h, ofDigits_eq_fault_iff] at hf
  cases hf.2

theorem exists_ofToken_iff :
    (∃ r, ofToken token = .ok r) ↔
      ∃ digits, IsName digits token.toList ∧ digits.length ≤ Text.maxDigits ∧
        number digits < registerCount := by
  constructor
  · rintro ⟨r, hr⟩
    obtain ⟨digits, hd, hl, hn⟩ := ofToken_eq_ok_iff.1 hr
    exact ⟨digits, hd, hl, hn.trans_lt r.isLt⟩
  · rintro ⟨digits, hd, hl, hn⟩
    exact ⟨⟨number digits, hn⟩, ofToken_eq_ok_iff.2 ⟨digits, hd, hl, rfl⟩⟩

theorem crashes_ofToken_iff :
    Crashes (ofToken token) ↔
      ∃ digits, IsName digits token.toList ∧ Text.maxDigits < digits.length := by
  rw [crashes_registerOfToken_iff, Overlong]
  simp only [registerDigits?_eq_some_iff]

/-- A token that neither is read as a register nor crashes is at fault, for its form or for its
number. -/
theorem ofToken_atFault_iff :
    ofToken token = .error (.fault (.registerForm token)) ∨
        ofToken token = .error (.fault (.registerNumber token)) ↔
      (¬∃ r, ofToken token = .ok r) ∧ ¬Crashes (ofToken token) := by
  constructor
  · intro h
    rcases h with h | h <;> rw [h] <;> exact ⟨nofun, not_crashes_fault _⟩
  · rintro ⟨hok, hcrash⟩
    by_cases h : ∃ digits, IsName digits token.toList
    · obtain ⟨digits, h⟩ := h
      have hl : digits.length ≤ Text.maxDigits :=
        Nat.not_lt.1 fun hl => hcrash (crashes_ofToken_iff.2 ⟨digits, h, hl⟩)
      have hn : registerCount ≤ number digits :=
        Nat.not_lt.1 fun hn => hok (exists_ofToken_iff.2 ⟨digits, h, hl, hn⟩)
      exact .inr (ofToken_eq_registerNumber_iff.2 ⟨digits, h, hl, hn⟩)
    · exact .inl (ofToken_of_not_isName h)

end

/-! ## Arguments -/

/-- In an argument nothing stands behind the digits. -/
theorem isName_iff_of_argument {text token : String}
    (h : token ∈ (Decoded.ofText text).arguments) {digits : List Char} :
    IsName digits token.toList ↔
      token.toList = 'R' :: digits ∧ digits ≠ [] ∧ ∀ c ∈ digits, c.isDigit = true := by
  constructor
  · intro hn
    refine ⟨hn.text_eq.resolve_right fun he => ?_, hn.ne_nil, hn.isDigit⟩
    have hm : '\n' ∈ token.toList := by simp [he]
    cases ((Decoded.areArguments_ofText text).plain token h '\n' hm).1
  · rintro ⟨he, hn, hd⟩
    exact ⟨hd, hn, .inl he⟩

/-- A token is read as a register exactly if it is a name with at most 4300 digits whose number is
at most 12; it crashes exactly if it is a name with more digits; and in every other case it is at
fault, for its form if it is no name and for its number if it is one. A register that is read can be
found in every complete register file. An argument of an instruction is a name exactly if it is the
letter and digits. -/
theorem ofToken_recognises (token : String) :
    (∀ n : Nat, (∃ r : Register, ofToken token = .ok r ∧ r.val = n) ↔
      ∃ digits, IsName digits token.toList ∧ digits.length ≤ 4300 ∧ number digits = n ∧ n ≤ 12) ∧
    (∀ reason, ofToken token = .error (.crash reason) ↔
      ∃ digits, IsName digits token.toList ∧ 4300 < digits.length ∧
        reason = .numeral (.tooLong digits.length)) ∧
    (ofToken token = .error (.fault (.registerForm token)) ∨
        ofToken token = .error (.fault (.registerNumber token)) ↔
      (¬∃ digits, IsName digits token.toList ∧ digits.length ≤ 4300 ∧ number digits ≤ 12) ∧
        ¬∃ digits, IsName digits token.toList ∧ 4300 < digits.length) ∧
    (ofToken token = .error (.fault (.registerForm token)) ↔
      ¬∃ digits, IsName digits token.toList) ∧
    (∀ r, ofToken token = .ok r → ∀ cpu : Cpu, cpu.registers.length = 13 →
      ∃ h : r.val < cpu.registers.length, cpu.read r = .ok cpu.registers[r.val]) ∧
    ∀ text, token ∈ (Decoded.ofText text).arguments → ∀ n : Nat,
      ((∃ r : Register, ofToken token = .ok r ∧ r.val = n) ↔
        ∃ digits, (token.toList = 'R' :: digits ∧ digits ≠ [] ∧ ∀ c ∈ digits, c.isDigit = true) ∧
          digits.length ≤ 4300 ∧ number digits = n ∧ n ≤ 12) := by
  have hok (n : Nat) : (∃ r : Register, ofToken token = .ok r ∧ r.val = n) ↔
      ∃ digits, IsName digits token.toList ∧ digits.length ≤ 4300 ∧ number digits = n ∧
        n ≤ 12 := by
    constructor
    · rintro ⟨r, hr, rfl⟩
      obtain ⟨digits, hd, hl, hn⟩ := ofToken_eq_ok_iff.1 hr
      exact ⟨digits, hd, hl, hn, Nat.le_of_lt_succ r.isLt⟩
    · rintro ⟨digits, hd, hl, hn, hle⟩
      exact ⟨⟨n, Nat.lt_succ_of_le hle⟩, ofToken_eq_ok_iff.2 ⟨digits, hd, hl, hn⟩, rfl⟩
  refine ⟨hok, fun reason => ofToken_eq_crash_iff, ?_, ofToken_eq_registerForm_iff,
    fun r _ cpu hc => ?_, fun text ht n => ?_⟩
  · rw [ofToken_atFault_iff, exists_ofToken_iff, crashes_ofToken_iff]
    simp only [Nat.lt_succ_iff, registerCount, Text.maxDigits]
  · have hr : r.val < cpu.registers.length := hc ▸ r.isLt
    exact ⟨hr, by rw [Cpu.read, List.getElem?_eq_getElem hr]⟩
  · rw [hok]
    simp only [isName_iff_of_argument ht]

/-- A name with zeros in front and a line feed behind, one whose number is too large, a text with a
digit of another script, a name that is too long, and an argument that is put together from what
stands between blanks. -/
theorem ofToken_recognises_blanks :
    let argument := "R012"
    (∃ r : Register, ofToken "R007\n" = .ok r ∧ r.val = 7) ∧
      ofToken "R13\n" = .error (.fault (.registerNumber "R13\n")) ∧
      ofToken "R\u0667" = .error (.fault (.registerForm "R\u0667")) ∧
      ofToken (String.ofList ('R' :: List.replicate 4301 '0')) =
        .error (.crash (.numeral (.tooLong 4301))) ∧
      argument ∈ (Decoded.ofText "OUT\tR 0\u00a012").arguments ∧
      ∃ r : Register, ofToken argument = .ok r ∧ r.val = 12 ∧ Cpu.initial.read r = .ok 0 := by
  intro argument
  have hargument : argument ∈ (Decoded.ofText "OUT\tR 0\u00a012").arguments := by decide
  have hlow : IsName "007".toList "R007\n".toList :=
    ⟨List.all_eq_true.1 (by decide), by decide, .inr (by decide)⟩
  have hhigh : IsName "13".toList "R13\n".toList :=
    ⟨List.all_eq_true.1 (by decide), by decide, .inr (by decide)⟩
  have hlong : IsName (List.replicate 4301 '0')
      (String.ofList ('R' :: List.replicate 4301 '0')).toList := by
    refine ⟨fun c hc => ?_, fun hn => ?_, .inl String.toList_ofList⟩
    · rw [List.eq_of_mem_replicate hc]
      decide
    · cases (List.replicate_eq_nil_iff '0').1 hn
  obtain ⟨hseven, -⟩ := ofToken_recognises "R007\n"
  obtain ⟨-, -, hfault, hother, -⟩ := ofToken_recognises "R13\n"
  obtain ⟨-, -, -, hscript, -⟩ := ofToken_recognises "R\u0667"
  obtain ⟨-, hcrash, -⟩ := ofToken_recognises (String.ofList ('R' :: List.replicate 4301 '0'))
  obtain ⟨-, -, -, -, hread, htwelve⟩ := ofToken_recognises argument
  obtain ⟨r, hr, hn⟩ := (htwelve _ hargument 12).2
    ⟨"012".toList, ⟨by decide, by decide, List.all_eq_true.1 (by decide)⟩, by decide, by decide,
      Nat.le_refl 12⟩
  obtain ⟨hindex, hvalue⟩ := hread r hr .initial rfl
  refine ⟨(hseven 7).2 ⟨_, hlow, by decide⟩, ?_, hscript.2 ?_, (hcrash _).2 ⟨_, hlong, ?_⟩,
    hargument, r, hr, hn, ?_⟩
  · refine (hfault.2 ⟨fun h => ?_, fun h => ?_⟩).resolve_left fun h => hother.1 h ⟨_, hhigh⟩
    · exact absurd (hhigh.exists_iff.1 h) (by decide)
    · exact absurd (hhigh.exists_iff.1 h) (by decide)
  · exact registerDigits?_eq_none_iff.1 (by decide)
  · rw [List.length_replicate]
    exact ⟨by decide, rfl⟩
  · rw [hvalue]
    simp [Cpu.initial]

end Register

end RegisterMachine
