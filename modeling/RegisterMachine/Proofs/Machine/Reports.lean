import RegisterMachine.Proofs.Instruction.Crashes
import RegisterMachine.Proofs.Machine.History
import RegisterMachine.Proofs.Machine.Limits

/-!
# Runs that report

A run is to report every error in its result. It does, but for two cases in which there is no
result: the run comes across a numeral that denotes no number, or it reaches a limit that has too
many digits to be written.
-/

namespace RegisterMachine.Machine

def MeetsUnreadable (m : Machine) : Prop :=
  ∃ (instruction : Instruction) (mnemonic : Mnemonic), m.current? = some instruction ∧
    (Decoded.ofText instruction.text).mnemonic = mnemonic.name ∧
    mnemonic.MeetsUnreadable (Decoded.ofText instruction.text).arguments m.console

theorem meetsUnreadable_iff {m : Machine} {instruction : Instruction} {mnemonic : Mnemonic}
    (hi : m.current? = some instruction)
    (hd : (Decoded.ofText instruction.text).mnemonic = mnemonic.name) :
    m.MeetsUnreadable ↔
      mnemonic.MeetsUnreadable (Decoded.ofText instruction.text).arguments m.console := by
  constructor
  · intro h
    obtain ⟨instruction', mnemonic', hi', hd', hu⟩ := h
    obtain rfl : instruction = instruction' := Option.some.inj (hi.symm.trans hi')
    obtain rfl : mnemonic = mnemonic' := Mnemonic.name_injective (hd.symm.trans hd')
    exact hu
  · intro h
    exact ⟨instruction, mnemonic, hi, hd, h⟩

section
variable {m : Machine} {size : Int} (h : m.Consistent size)
include h

theorem crashes_executeAt_iff {program : Program} {cpu : Cpu} {instruction : Instruction}
    {mnemonic : Mnemonic} (ha : m.At program cpu instruction mnemonic) :
    Crashes (m.executeAt program cpu instruction).1 ↔
      mnemonic.MeetsUnreadable (Decoded.ofText instruction.text).arguments m.console := by
  have hw : program.WellFormed := h.wellFormed program ha.program_eq
  have hf : cpu.Fits program.layout.length := h.fits program cpu ha.program_eq ha.cpu_eq
  rw [← Registry.crashes_execute_iff hf ha.pc_lt hw.bounded m.toWorld ha.mnemonic_eq]
  rcases h.executeAt_cases ha with ⟨failure, world, hr, he⟩ | ⟨next, world, hr, he⟩
  · rw [hr, he]
    cases failure with
    | fault report => exact iff_of_false (not_crashes_fault _) (not_crashes_fault _)
    | crash reason => exact iff_of_true ⟨reason, rfl⟩ ⟨reason, rfl⟩
  · rw [hr, he]
    exact iff_of_false (not_crashes_ok _) (not_crashes_ok _)

theorem crashesNext_iff : m.CrashesNext ↔ m.MeetsUnreadable := by
  rcases h.finished_or_at with ⟨hf, hn⟩ | ⟨program, cpu, instruction, mnemonic, ha⟩
  · refine iff_of_false ?_ ?_
    · intro hs
      obtain ⟨hs, -⟩ := hs
      rw [hf] at hs
      cases hs
    · intro hs
      obtain ⟨instruction, mnemonic, hi, -⟩ := hs
      rw [hn] at hi
      cases hi
  · have hx := crashes_executeAt_iff h ha
    rw [meetsUnreadable_iff ha.current ha.mnemonic_eq, CrashesNext, ha.step,
      and_iff_right ha.isFinished]
    generalize m.executeAt program cpu instruction = executed at hx ⊢
    exact (crashes_map_iff _ _).trans hx

end

/-- A limited run leaves no result exactly if its iteration crashes, or comes to a limit that cannot
be written. -/
theorem runWithin_eq_error_iff (m : Machine) (limit : Int) :
    (∃ reason, (m.runWithin limit).1 = .error reason) ↔
      (∃ reason, (m.restart.iterate limit.toNat).1 = .failed (.crash reason)) ∨
        (m.restart.iterate limit.toNat).1 = .exhausted ∧ Text.isWritable limit = false := by
  unfold runWithin
  cases m.restart.iterate limit.toNat with
  | mk ending next =>
      cases ending with
      | finished => exact iff_of_false (by simp) (by simp)
      | exhausted =>
          cases hw : Text.isWritable limit with
          | true =>
              exact iff_of_false (by simp [limitFailure_of_writable hw, resultOfFailure]) (by simp)
          | false =>
              refine iff_of_true ⟨.unwritable, ?_⟩ (.inr ⟨rfl, rfl⟩)
              simp only [limitFailure_of_not_writable hw, resultOfFailure]
      | failed failure =>
          cases failure with
          | fault report => exact iff_of_false (by simp [resultOfFailure]) (by simp)
          | crash reason => exact iff_of_true ⟨reason, rfl⟩ (.inl ⟨reason, rfl⟩)

theorem Consistent.runWithin_eq_error_iff {m : Machine} {size : Int} (h : m.Consistent size)
    (limit : Int) :
    (∃ reason, (m.runWithin limit).1 = .error reason) ↔
      m.restart.Visits limit.toNat MeetsUnreadable ∨
        m.restart.GoesOn limit.toNat ∧ Text.isWritable limit = false := by
  rw [Machine.runWithin_eq_error_iff, iterate_crashes_iff, iterate_exhausted_iff]
  refine or_congr_left ?_
  constructor
  · intro hr
    obtain ⟨k, s, hk, hs, hm⟩ := hr
    exact ⟨k, s, hk, hs, (crashesNext_iff (h.restart.nth? hs)).1 hm⟩
  · intro hr
    obtain ⟨k, s, hk, hs, hm⟩ := hr
    exact ⟨k, s, hk, hs, (crashesNext_iff (h.restart.nth? hs)).2 hm⟩

/-- Whatever was done with a machine, a limited run has a result, which is a success or holds an
error, exactly if no instruction that it executes meets a numeral that denotes no number, and it is
not cut off at a limit that has too many digits to be written. -/
theorem run_reports_iff {room : Nat} {console : Console} {size : Int}
    {own : Option Int} {tracing : Bool} {m : Machine}
    (h : create room console size own tracing = .ok m) (history : List Operation)
    {limit : Option Int} {bound : Int} (hl : limit.or (m.after history).limit = some bound)
    (budget : Nat) :
    (∃ result, ((m.after history).run limit budget).1 = some (.ok result) ∧
        (result.ok = true ∧ result.error = none ∨
          result.ok = false ∧ ∃ report, result.error = some report)) ↔
      ¬(m.after history).restart.Visits bound.toNat MeetsUnreadable ∧
        ¬((m.after history).restart.GoesOn bound.toNat ∧ Text.isWritable bound = false) := by
  have hs : (m.after history).Consistent size := (consistent_create h).after history
  generalize m.after history = m at hl hs ⊢
  rw [← not_or, ← hs.runWithin_eq_error_iff bound]
  cases hp : m.program with
  | none =>
      rw [run_of_not_loaded hp]
      refine iff_of_true ⟨_, rfl, .inr ⟨rfl, _, rfl⟩⟩ ?_
      intro hr
      obtain ⟨reason, hr⟩ := hr
      have hf : m.restart.isFinished = true := isFinished_of_not_loaded hp
      rw [runWithin, iterate_of_isFinished hf] at hr
      cases hr
  | some program =>
      obtain ⟨cpu, hc, -, -⟩ := hs.loaded hp
      have hrun := run_of_limit hp hc hl budget
      rw [hrun]
      cases hw : (m.runWithin bound).1 with
      | ok result =>
          have hr : (m.run limit budget).1 = some (.ok result) := by rw [hrun, hw]
          refine iff_of_true ⟨result, rfl, ok_or_error_of_run hr⟩ ?_
          intro he
          obtain ⟨reason, he⟩ := he
          cases he
      | error reason =>
          refine iff_of_false ?_ fun hr => hr ⟨reason, rfl⟩
          intro hr
          obtain ⟨result, hr, -⟩ := hr
          cases hr

/-- A separator behind the digits of a line of input: the run that reads the line has no result. -/
theorem run_reports_iff_separator :
    let m : Machine :=
      { memory := Memory.zeroed 4 (by decide) (by decide), console := { pending := ["1\x1c"] } }
    let history : List Operation := [.loadLines ["IN R0"] "input"]
    create 4 { pending := ["1\x1c"] } 4 none false = .ok m ∧
      ¬∃ result, ((m.after history).run (some 5) 0).1 = some (.ok result) := by
  intro m history
  have hc : create 4 { pending := ["1\x1c"] } 4 none false = .ok m := rfl
  have hl : (some (5 : Int)).or (m.after history).limit = some 5 := rfl
  have hi : (m.after history).restart.current? = some { text := "IN R0", line := 1 } := by
    decide +kernel
  have hd : (Decoded.ofText "IN R0").mnemonic = Mnemonic.input.name := by decide +kernel
  have ha : (Decoded.ofText "IN R0").arguments = ["R0"] := by decide +kernel
  have hr : Register.ofToken "R0" = .ok ⟨0, by decide⟩ := rfl
  have hu : Text.Unreadable "1\x1c".toList := by
    refine ⟨{ before := [], negative := false, digits := ['1'], after := ['\x1c'] }, rfl, .inr ?_⟩
    exact ⟨'\x1c', List.mem_singleton_self _, rfl⟩
  have hm : (m.after history).restart.MeetsUnreadable := by
    refine ⟨_, .input, hi, hd, .inr ?_⟩
    exact ⟨⟨rfl, "R0", _, ha, hr⟩, "1\x1c", [], rfl, hu⟩
  have hn := (not_congr (run_reports_iff hc history hl 0)).2 fun hx =>
    hx.1 ⟨0, _, by decide, nth?_zero _, hm⟩
  refine ⟨hc, fun hx => hn ?_⟩
  obtain ⟨result, hx⟩ := hx
  exact ⟨result, hx, ok_or_error_of_run hx⟩

end RegisterMachine.Machine
