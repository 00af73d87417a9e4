import RegisterMachine.Text.Utf8

/-!
# Encoded texts are read back

The UTF-8 encoding of a text has no defect, and what is read from it is the text. A character is
read byte by byte: its lead byte begins a sequence with the right number of bytes wanted and with
bounds that the next byte lies in, and each byte adds its six bits.
-/

namespace RegisterMachine.Text

/-! ## Sequences -/

namespace Utf8Sequence

structure Admits (s : Utf8Sequence) (b : Nat) : Prop where
  low : s.low.toNat ≤ b
  high : b ≤ s.high.toNat

section
variable {s : Utf8Sequence} {b : Nat} (h : s.Admits b)
include h

theorem Admits.toNat : (UInt8.ofNat b).toNat = b :=
  UInt8.toNat_ofNat_of_lt' (Nat.lt_of_le_of_lt h.high s.high.toNat_lt)

theorem Admits.not_refused : ¬(UInt8.ofNat b < s.low || s.high < UInt8.ofNat b) = true := by
  have hlow := h.low
  have hhigh := h.high
  simp only [Bool.or_eq_true, decide_eq_true_eq, UInt8.lt_iff_toNat_lt, h.toNat]
  omega

/-- The last byte of a sequence completes its character. -/
theorem Admits.complete (hw : s.wanted = 1) (position : Nat) (rest : List UInt8) :
    decodeUtf8From position (some s) (UInt8.ofNat b :: rest) =
      (decodeUtf8From (position + 1) none rest).map (Char.ofNat (64 * s.bits + b % 64) :: ·) := by
  have hle : s.wanted ≤ 1 := Nat.le_of_eq hw
  rw [decodeUtf8From, if_neg h.not_refused]
  simp only [h.toNat, hle, if_true]

/-- A byte before the last one adds its bits, and after it any continuation byte will do. -/
theorem Admits.extend {wanted : Nat} (hw : s.wanted = wanted + 2) (position : Nat)
    (rest : List UInt8) :
    ∃ t, decodeUtf8From position (some s) (UInt8.ofNat b :: rest) =
        decodeUtf8From (position + 1) (some t) rest ∧
      t.wanted = wanted + 1 ∧ t.bits = 64 * s.bits + b % 64 ∧ ∀ k < 64, t.Admits (k + 128) := by
  have hle : ¬s.wanted ≤ 1 := by omega
  rw [decodeUtf8From, if_neg h.not_refused]
  simp only [h.toNat, hle, if_false]
  refine ⟨_, rfl, by simp only; omega, rfl, ?_⟩
  intro k hk
  exact ⟨show 0x80 ≤ k + 128 by omega, show k + 128 ≤ 0xBF by omega⟩

end

/-! ## Lead bytes -/

/-- A lead byte begins a sequence that wants so many bytes, has so many bits and can go on with the
byte behind it. -/
def Begins (lead wanted bits next : Nat) : Prop :=
  ∀ position, ∃ s, begin? position (UInt8.ofNat lead) = some s ∧ s.wanted = wanted ∧
    s.bits = bits ∧ s.Admits next

theorem exists_begun {position wanted bits bits' next : Nat} {lead low high : UInt8}
    (hb : bits' = bits) (hlow : low.toNat ≤ next) (hhigh : next ≤ high.toNat) :
    ∃ s : Utf8Sequence,
      some { start := position, lead, taken := 1, wanted, low, high, bits := bits' } = some s ∧
        s.wanted = wanted ∧ s.bits = bits ∧ s.Admits next :=
  ⟨_, rfl, rfl, hb, hlow, hhigh⟩

section
variable {n : Nat}

theorem begins_two (h : 0x80 ≤ n) (h' : n ≤ 0x7FF) :
    Begins (n / 64 % 32 + 192) 1 (n / 64) (n % 64 + 128) := by
  intro position
  have hb : (UInt8.ofNat (n / 64 % 32 + 192)).toNat = n / 64 + 192 := by
    rw [UInt8.toNat_ofNat_of_lt' (by simp only [UInt8.size]; omega)]
    omega
  simp only [begin?, hb, Bool.and_eq_true, decide_eq_true_eq]
  rw [if_pos (by omega)]
  exact exists_begun (by omega) (show 0x80 ≤ _ by omega) (show _ ≤ 0xBF by omega)

/-- The bounds on the second byte are narrower behind two of the lead bytes: one would begin a
number that two bytes can say, the other a surrogate. -/
theorem begins_three (h : 0x800 ≤ n) (h' : n ≤ 0xFFFF) (hn : n < 0xD800 ∨ 0xDFFF < n) :
    Begins (n / 4096 % 16 + 224) 2 (n / 4096) (n / 64 % 64 + 128) := by
  intro position
  have hb : (UInt8.ofNat (n / 4096 % 16 + 224)).toNat = n / 4096 + 224 := by
    rw [UInt8.toNat_ofNat_of_lt' (by simp only [UInt8.size]; omega)]
    omega
  simp only [begin?, hb, Bool.and_eq_true, decide_eq_true_eq]
  rw [if_neg (by omega)]
  split
  next => exact exists_begun (by omega) (show 0xA0 ≤ _ by omega) (show _ ≤ 0xBF by omega)
  next =>
    split
    next => exact exists_begun (by omega) (show 0x80 ≤ _ by omega) (show _ ≤ 0x9F by omega)
    next =>
      rw [if_pos (by omega)]
      exact exists_begun (by omega) (show 0x80 ≤ _ by omega) (show _ ≤ 0xBF by omega)

/-- Here the narrower bounds keep out what three bytes can say and what is beyond the last
character. -/
theorem begins_four (h : 0x10000 ≤ n) (h' : n < 0x110000) :
    Begins (n / 262144 % 8 + 240) 3 (n / 262144) (n / 4096 % 64 + 128) := by
  intro position
  have hb : (UInt8.ofNat (n / 262144 % 8 + 240)).toNat = n / 262144 + 240 := by
    rw [UInt8.toNat_ofNat_of_lt' (by simp only [UInt8.size]; omega)]
    omega
  simp only [begin?, hb, Bool.and_eq_true, decide_eq_true_eq]
  rw [if_neg (by omega), if_neg (by omega), if_neg (by omega), if_neg (by omega)]
  split
  next => exact exists_begun (by omega) (show 0x90 ≤ _ by omega) (show _ ≤ 0xBF by omega)
  next =>
    split
    next => exact exists_begun (by omega) (show 0x80 ≤ _ by omega) (show _ ≤ 0xBF by omega)
    next =>
      rw [if_pos (by omega)]
      exact exists_begun (by omega) (show 0x80 ≤ _ by omega) (show _ ≤ 0x8F by omega)

end

theorem Begins.decode {lead wanted bits next : Nat} (h : Begins lead wanted bits next)
    (hl : 0x80 ≤ lead) (hl' : lead < 256) (position : Nat) (rest : List UInt8) :
    ∃ s, decodeUtf8From position none (UInt8.ofNat lead :: rest) =
        decodeUtf8From (position + 1) (some s) rest ∧
      s.wanted = wanted ∧ s.bits = bits ∧ s.Admits next := by
  obtain ⟨s, hs, hw, hb, ha⟩ := h position
  have hn : ¬UInt8.ofNat lead < 0x80 := by
    rw [UInt8.lt_iff_toNat_lt, UInt8.toNat_ofNat_of_lt' hl']
    exact Nat.not_lt.2 hl
  refine ⟨s, ?_, hw, hb, ha⟩
  rw [decodeUtf8From, if_neg hn]
  simp only [hs]

end Utf8Sequence

/-! ## Characters -/

section
variable {n : Nat} {c : Char} (hc : Char.ofNat n = c) (position : Nat) (rest : List UInt8)
include hc

open Utf8Sequence

theorem decodeUtf8From_two (h : 0x80 ≤ n) (h' : n ≤ 0x7FF) :
    decodeUtf8From position none
        (UInt8.ofNat (n / 64 % 32 + 192) :: UInt8.ofNat (n % 64 + 128) :: rest) =
      (decodeUtf8From (position + 2) none rest).map (c :: ·) := by
  obtain ⟨s, hs, hw, hb, ha⟩ :=
    (begins_two h h').decode (by omega) (by omega) position (UInt8.ofNat (n % 64 + 128) :: rest)
  have hn : 64 * (n / 64) + (n % 64 + 128) % 64 = n := by omega
  rw [hs, ha.complete hw, hb, hn, hc]

theorem decodeUtf8From_three (h : 0x800 ≤ n) (h' : n ≤ 0xFFFF) (hn : n < 0xD800 ∨ 0xDFFF < n) :
    decodeUtf8From position none
        (UInt8.ofNat (n / 4096 % 16 + 224) :: UInt8.ofNat (n / 64 % 64 + 128) ::
          UInt8.ofNat (n % 64 + 128) :: rest) =
      (decodeUtf8From (position + 3) none rest).map (c :: ·) := by
  obtain ⟨s, hs, hw, hb, ha⟩ :=
    (begins_three h h' hn).decode (by omega) (by omega) position
      (UInt8.ofNat (n / 64 % 64 + 128) :: UInt8.ofNat (n % 64 + 128) :: rest)
  obtain ⟨t, ht, htw, htb, hta⟩ := ha.extend hw (position + 1) (UInt8.ofNat (n % 64 + 128) :: rest)
  have hn : 64 * (64 * (n / 4096) + (n / 64 % 64 + 128) % 64) + (n % 64 + 128) % 64 = n := by
    omega
  rw [hs, ht, (hta (n % 64) (by omega)).complete htw, htb, hb, hn, hc]

theorem decodeUtf8From_four (h : 0x10000 ≤ n) (h' : n < 0x110000) :
    decodeUtf8From position none
        (UInt8.ofNat (n / 262144 % 8 + 240) :: UInt8.ofNat (n / 4096 % 64 + 128) ::
          UInt8.ofNat (n / 64 % 64 + 128) :: UInt8.ofNat (n % 64 + 128) :: rest) =
      (decodeUtf8From (position + 4) none rest).map (c :: ·) := by
  obtain ⟨s, hs, hw, hb, ha⟩ :=
    (begins_four h h').decode (by omega) (by omega) position
      (UInt8.ofNat (n / 4096 % 64 + 128) :: UInt8.ofNat (n / 64 % 64 + 128) ::
        UInt8.ofNat (n % 64 + 128) :: rest)
  obtain ⟨t, ht, htw, htb, hta⟩ := ha.extend hw (position + 1)
    (UInt8.ofNat (n / 64 % 64 + 128) :: UInt8.ofNat (n % 64 + 128) :: rest)
  obtain ⟨u, hu, huw, hub, hua⟩ := (hta (n / 64 % 64) (by omega)).extend htw (position + 1 + 1)
    (UInt8.ofNat (n % 64 + 128) :: rest)
  have hn :
      64 * (64 * (64 * (n / 262144) + (n / 4096 % 64 + 128) % 64) + (n / 64 % 64 + 128) % 64) +
        (n % 64 + 128) % 64 = n := by
    omega
  rw [hs, ht, hu, (hua (n % 64) (by omega)).complete huw, hub, htb, hb, hn, hc]

end

/-- The bytes of a character are read as that character, whatever stands behind them. -/
theorem decodeUtf8From_encodeChar (c : Char) (position : Nat) (rest : List UInt8) :
    ∃ next, decodeUtf8From position none (String.utf8EncodeChar c ++ rest) =
      (decodeUtf8From next none rest).map (c :: ·) := by
  have hc : Char.ofNat c.val.toNat = c := Char.ofNat_toNat c
  have hv : c.val.toNat < 0xD800 ∨ 0xDFFF < c.val.toNat ∧ c.val.toNat < 0x110000 := c.valid
  unfold String.utf8EncodeChar
  generalize c.val.toNat = n at hc hv ⊢
  dsimp only
  split
  next h1 =>
    have hb : (UInt8.ofNat n).toNat = n :=
      UInt8.toNat_ofNat_of_lt' (by simp only [UInt8.size]; omega)
    have hlt : UInt8.ofNat n < 0x80 := by
      rw [UInt8.lt_iff_toNat_lt, hb]
      exact Nat.lt_succ_of_le h1
    rw [List.singleton_append, decodeUtf8From, if_pos hlt, hb, hc]
    exact ⟨_, rfl⟩
  next h1 =>
    split
    next h2 => exact ⟨_, decodeUtf8From_two hc position rest (by omega) h2⟩
    next h2 =>
      split
      next h3 => exact ⟨_, decodeUtf8From_three hc position rest (by omega) h3 (by omega)⟩
      next h3 => exact ⟨_, decodeUtf8From_four hc position rest (by omega) (by omega)⟩

theorem decodeUtf8From_encode (text : List Char) (position : Nat) :
    decodeUtf8From position none (text.flatMap String.utf8EncodeChar) = .ok text := by
  induction text generalizing position with
  | nil => rfl
  | cons c rest ih =>
      obtain ⟨next, hn⟩ :=
        decodeUtf8From_encodeChar c position (rest.flatMap String.utf8EncodeChar)
      rw [List.flatMap_cons, hn, ih next]
      rfl

/-- Decoding undoes encoding. -/
theorem decodeUtf8_toUTF8 (text : String) :
    decodeUtf8 text.toUTF8.data.toList = .ok text.toList := by
  have hb : text.toUTF8.data.toList = text.toList.flatMap String.utf8EncodeChar := by
    rw [String.toUTF8, ← String.utf8Encode_toList, List.utf8Encode, List.toList_data_toByteArray]
  rw [hb]
  exact decodeUtf8From_encode text.toList 0

end RegisterMachine.Text
