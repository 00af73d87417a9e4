/-!
# UTF-8

Reading bytes as text, up to the first defect. A sequence is a lead byte and the continuation
bytes it asks for; the bounds on the first of them keep out overlong forms, surrogates and
numbers beyond U+10FFFF.
-/

namespace RegisterMachine.Text

inductive Utf8Reason where
  | badStart
  | badContinuation
  | cutShort
  deriving DecidableEq, Repr

/-- The first place where bytes are not UTF-8: `count` bytes from `position` on, the first of
them `lead`. -/
structure Utf8Defect where
  position : Nat
  count : Nat
  lead : UInt8
  reason : Utf8Reason
  deriving DecidableEq, Repr

/-- A sequence begun: where it starts, the bytes taken and still wanted, the bounds on the next
one and the value of the bits so far. -/
structure Utf8Sequence where
  start : Nat
  lead : UInt8
  taken : Nat
  wanted : Nat
  low : UInt8
  high : UInt8
  bits : Nat
  deriving DecidableEq, Repr

def Utf8Sequence.defect (s : Utf8Sequence) (reason : Utf8Reason) : Utf8Defect :=
  { position := s.start, count := s.taken, lead := s.lead, reason }

def Utf8Sequence.begin? (position : Nat) (b : UInt8) : Option Utf8Sequence :=
  let sequence (wanted : Nat) (low high : UInt8) (bits : Nat) : Option Utf8Sequence :=
    some { start := position, lead := b, taken := 1, wanted, low, high, bits }
  let n := b.toNat
  if 0xC2 ≤ n && n ≤ 0xDF then sequence 1 0x80 0xBF (n - 0xC0)
  else if n = 0xE0 then sequence 2 0xA0 0xBF 0
  else if n = 0xED then sequence 2 0x80 0x9F 0xD
  else if 0xE1 ≤ n && n ≤ 0xEF then sequence 2 0x80 0xBF (n - 0xE0)
  else if n = 0xF0 then sequence 3 0x90 0xBF 0
  else if 0xF1 ≤ n && n ≤ 0xF3 then sequence 3 0x80 0xBF (n - 0xF0)
  else if n = 0xF4 then sequence 3 0x80 0x8F 4
  else none

def decodeUtf8From (position : Nat) :
    Option Utf8Sequence → List UInt8 → Except Utf8Defect (List Char)
  | none, [] => .ok []
  | some s, [] => .error (s.defect .cutShort)
  | none, b :: rest =>
      if b < 0x80 then
        (decodeUtf8From (position + 1) none rest).map (Char.ofNat b.toNat :: ·)
      else
        match Utf8Sequence.begin? position b with
        | none => .error { position, count := 1, lead := b, reason := .badStart }
        | some s => decodeUtf8From (position + 1) (some s) rest
  | some s, b :: rest =>
      if b < s.low || s.high < b then .error (s.defect .badContinuation)
      else
        let bits := 64 * s.bits + b.toNat % 64
        if s.wanted ≤ 1 then
          (decodeUtf8From (position + 1) none rest).map (Char.ofNat bits :: ·)
        else
          decodeUtf8From (position + 1)
            (some { s with
              taken := s.taken + 1, wanted := s.wanted - 1, low := 0x80, high := 0xBF, bits }) rest

def decodeUtf8 (bytes : List UInt8) : Except Utf8Defect (List Char) :=
  decodeUtf8From 0 none bytes

end RegisterMachine.Text
