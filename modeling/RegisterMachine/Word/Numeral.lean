import RegisterMachine.Text.Numeral
import RegisterMachine.Word

/-!
# Words as they are written

Reading a machine word from a literal or from a line of input.
-/

namespace RegisterMachine.Word

/-- The machine word that a text denotes. A text is none if it has not the form of a numeral or if
its number is no machine word. -/
def ofText (text : List Char) : Except Text.NumeralError (Option Int) :=
  match Text.Numeral.ofText? text with
  | none => .ok none
  | some numeral =>
      (numeral.value text).map fun v => if inRange v then some v else none

theorem inRange_of_ofText
    {text : List Char} {v : Int} (h : ofText text = .ok (some v)) :
    inRange v = true := by
  unfold ofText at h
  split at h
  · cases h
  · rename_i numeral _
    cases hv : numeral.value text with
    | error e => simp [hv, Except.map] at h
    | ok w =>
        simp only [hv, Except.map, Except.ok.injEq] at h
        split at h
        · cases h
          assumption
        · cases h

/-- Machine words can be written. -/
theorem isWritable_of_inRange {v : Int} (h : inRange v = true) : Text.isWritable v = true := by
  rw [inRange_iff] at h
  simp only [least, greatest] at h
  have : v.natAbs < Nat.pow 10 10 := show v.natAbs < 10000000000 by omega
  exact Text.isWritable_of_natAbs_lt_pow (by decide) this

end RegisterMachine.Word
