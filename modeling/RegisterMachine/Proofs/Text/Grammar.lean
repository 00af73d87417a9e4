import Mathlib.Data.List.Induction
import Mathlib.Data.Nat.Digits.Defs
import RegisterMachine.Proofs.Text.Blank
import RegisterMachine.Proofs.Text.Numeral

/-!
# The grammar of numerals

A numeral is written as blanks, a sign or none, at least one digit, and blanks. Taking a text apart
recognises just these texts, each in one way only, and the number read off the digits from left to
right is the sum of the digits by their places.
-/

namespace RegisterMachine.Text

inductive IsSign : Bool → List Char → Prop
  | none : IsSign false []
  | plus : IsSign false ['+']
  | minus : IsSign true ['-']

structure Numeral.Spells (numeral : Numeral) (text : List Char) : Prop where
  before : ∀ c ∈ numeral.before, isBlank c = true
  digits : ∀ c ∈ numeral.digits, c.isDigit = true
  ne_nil : numeral.digits ≠ []
  after : ∀ c ∈ numeral.after, isBlank c = true
  text_eq : ∃ sign, IsSign numeral.negative sign ∧
    text = numeral.before ++ (sign ++ (numeral.digits ++ numeral.after))

def digitValue (c : Char) : Nat :=
  c.toNat - '0'.toNat

/-- The number with the digits of a numeral, each with the weight of its place. -/
def Numeral.number (numeral : Numeral) : Int :=
  let magnitude : Nat := Nat.ofDigits 10 (numeral.digits.reverse.map digitValue)
  if numeral.negative then -magnitude else magnitude

/-- Text that may stand beside digits: blanks, but none of the separators. -/
def IsPadding (text : List Char) : Prop :=
  ∀ c ∈ text, isBlank c = true ∧ isSeparator c = false

/-! ## Signs -/

theorem IsSign.isBlank_eq_false {negative : Bool} {sign : List Char} (h : IsSign negative sign) :
    ∀ c ∈ sign, isBlank c = false := by
  cases h with
  | none => nofun
  | plus | minus => exact List.forall_mem_singleton.2 (by decide)

theorem isSign_takeSign (text : List Char) :
    ∃ sign, IsSign (takeSign text).1 sign ∧ text = sign ++ (takeSign text).2 := by
  unfold takeSign
  split
  · exact ⟨['-'], .minus, rfl⟩
  · exact ⟨['+'], .plus, rfl⟩
  · exact ⟨[], .none, rfl⟩

theorem takeSign_of_isDigit {text : List Char} (h : text.head?.any Char.isDigit) :
    takeSign text = (false, text) := by
  unfold takeSign
  split
  · cases h
  · cases h
  · rfl

theorem IsSign.takeSign_append {negative : Bool} {sign : List Char} (h : IsSign negative sign)
    {text : List Char} (ht : text.head?.any Char.isDigit) :
    takeSign (sign ++ text) = (negative, text) := by
  cases h with
  | none => exact takeSign_of_isDigit ht
  | plus => rfl
  | minus => rfl

/-! ## Taking apart -/

section
variable {text : List Char} {numeral : Numeral}

/-- The parts that a text is taken apart into spell it. -/
theorem Numeral.spells_of_ofText? (h : ofText? text = some numeral) : numeral.Spells text := by
  obtain ⟨sign, hs, he⟩ := isSign_takeSign (trimStart text)
  unfold ofText? at h
  dsimp only at h
  split at h
  next => cases h
  next hn =>
    cases h
    simp only [Bool.or_eq_true, List.isEmpty_iff, Bool.not_eq_true', not_or,
      Bool.not_eq_false, List.all_eq_true] at hn
    refine ⟨fun c hc => List.mem_takeWhile_imp hc, fun c hc => List.mem_takeWhile_imp hc, hn.1,
      hn.2, sign, hs, ?_⟩
    rw [List.takeWhile_append_dropWhile, ← he, trimStart, List.takeWhile_append_dropWhile]

/-- A text is taken apart into the parts that spell it. -/
theorem Numeral.ofText?_of_spells (h : numeral.Spells text) : ofText? text = some numeral := by
  obtain ⟨sign, hs, he⟩ := h.text_eq
  obtain ⟨digit, digits, hd⟩ := List.exists_cons_of_ne_nil h.ne_nil
  have hdigit : digit.isDigit = true := h.digits digit (hd ▸ List.mem_cons_self)
  -- Each part ends where the next one starts.
  have hblanks : (sign ++ (numeral.digits ++ numeral.after)).head?.all (!isBlank ·) := by
    cases sign with
    | nil => simp [hd, isBlank_of_isDigit hdigit]
    | cons c rest => simp [hs.isBlank_eq_false c List.mem_cons_self]
  have hdigits : numeral.after.head?.all (!Char.isDigit ·) := by
    cases ha : numeral.after with
    | nil => rfl
    | cons c rest => simp [isDigit_eq_false_of_isBlank (h.after c (ha ▸ List.mem_cons_self))]
  have hbefore : text.takeWhile isBlank = numeral.before := by
    rw [he]
    exact takeWhile_append_of_stop h.before hblanks
  have htrim : trimStart text = sign ++ (numeral.digits ++ numeral.after) := by
    rw [he]
    exact dropWhile_append_of_stop h.before hblanks
  have hsign : takeSign (trimStart text) = (numeral.negative, numeral.digits ++ numeral.after) := by
    rw [htrim]
    exact hs.takeSign_append (by simpa [hd] using hdigit)
  have hafter : numeral.after.all isBlank = true := List.all_eq_true.2 h.after
  have hnil : numeral.digits.isEmpty = false := by simpa using h.ne_nil
  simp only [ofText?, hsign, takeWhile_append_of_stop h.digits hdigits,
    dropWhile_append_of_stop h.digits hdigits, hbefore, hafter, hnil, Bool.not_true, Bool.or_self,
    Bool.false_eq_true, if_false]

/-- The grammar of numerals: a text is taken apart into parts exactly if they spell it. -/
theorem Numeral.ofText?_eq_some_iff : ofText? text = some numeral ↔ numeral.Spells text :=
  ⟨spells_of_ofText?, ofText?_of_spells⟩

end

/-! ## Numbers -/

/-- Reading digits from left to right weighs each of them by its place. -/
theorem ofDigitChars_eq_ofDigits (digits : List Char) :
    Nat.ofDigitChars 10 digits 0 = Nat.ofDigits 10 (digits.reverse.map digitValue) := by
  induction digits using List.reverseRecOn with
  | nil => rfl
  | append_singleton digits c ih =>
      rw [Nat.ofDigitChars_append, ih, List.reverse_append, List.reverse_singleton,
        List.singleton_append, List.map_cons, Nat.ofDigits_cons, Nat.ofDigitChars_cons,
        Nat.ofDigitChars_nil, Nat.add_comm]
      rfl

theorem Numeral.signedValue_eq_number (numeral : Numeral) :
    signedValue numeral.negative numeral.digits = numeral.number := by
  simp only [signedValue, number, ofDigitChars_eq_ofDigits]

/-! ## Decimal texts -/

def Numeral.decimal (v : Int) (before after : List Char) : Numeral :=
  { before, negative := decide (v < 0), digits := Nat.toDigits 10 v.natAbs, after }

theorem Numeral.spells_decimal (v : Int) {before after : List Char}
    (hb : ∀ c ∈ before, isBlank c = true) (ha : ∀ c ∈ after, isBlank c = true) :
    (decimal v before after).Spells (before ++ ((toString v).toList ++ after)) := by
  refine ⟨hb, fun c hc => Nat.isDigit_of_mem_toDigits (by decide) (by decide) hc,
    Nat.toDigits_ne_nil, ha, ?_⟩
  by_cases hv : v < 0
  · refine ⟨['-'], by simpa [decimal, hv] using IsSign.minus, ?_⟩
    rw [toList_toString_of_neg hv]
    rfl
  · obtain ⟨n, rfl⟩ := Int.eq_ofNat_of_zero_le (Int.not_lt.1 hv)
    refine ⟨[], by simpa [decimal, hv] using IsSign.none, ?_⟩
    rw [toList_toString_natCast]
    rfl

theorem Numeral.number_decimal (v : Int) (before after : List Char) :
    (decimal v before after).number = v := by
  rw [← signedValue_eq_number, decimal, signedValue,
    Nat.ofDigitChars_toDigits (by decide) (by decide)]
  by_cases hv : v < 0
  · simp only [hv, decide_true, if_true]
    omega
  · simp only [hv, decide_false, Bool.false_eq_true, if_false]
    omega

end RegisterMachine.Text
