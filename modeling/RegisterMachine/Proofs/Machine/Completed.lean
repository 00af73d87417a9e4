import RegisterMachine.Proofs.Machine.Recent

/-!
# Completed instructions

A run consists of the instructions that it completes, and of at most one more, which fails. What
each completed instruction keeps, with the list of those before it, holds after all of them.
-/

namespace RegisterMachine.Machine

/-! ## Completing steps -/

/-- All that a step that completes an instruction has done. -/
theorem step_completes {m next : Machine} {entry : TraceEntry}
    (h : m.step = (.ok (some entry), next)) :
    ∃ program world, m.program = some program ∧ m.cpu = some entry.before ∧
      program.fetch? entry.before.pc = some entry.instruction ∧
      entry.decoded = Decoded.ofText entry.instruction.text ∧
      Registry.standard.execute program.layout entry.before entry.decoded m.toWorld =
        (.ok entry.after, world) ∧
      next =
        { m with
          toWorld := world
          cpu := some entry.after
          trace := if m.tracing then m.trace.push entry else m.trace } := by
  obtain ⟨program, hp, hc, -, hf, hx⟩ := step_eq_ok h
  obtain ⟨world, hr, -, he, hn⟩ := executeAt_eq_ok hx
  have hd : entry.decoded = Decoded.ofText entry.instruction.text := congrArg TraceEntry.decoded he
  rw [← hd] at hr
  rw [complete_eq] at hn
  exact ⟨program, world, hp, hc, Program.fetch?_of_fetch hf, hd, hr, hn⟩

theorem Consistent.of_step {m next : Machine} {size : Int} (h : m.Consistent size)
    {result : Except (Failure Report) (Option TraceEntry)} (hs : m.step = (result, next)) :
    next.Consistent size := by
  have hn := h.step.1
  rw [hs] at hn
  exact hn

/-! ## Iterations -/

/-- How an iteration ends behind the last instruction that it completes, which was the `n`th: there
is nothing left to execute, the budget is used up, or the next instruction fails. -/
def Ends (last : Machine) (n budget : Nat) : Ending × Machine → Prop
  | (.finished, next) => next = last ∧ last.isFinished = true
  | (.exhausted, next) => next = last ∧ n = budget
  | (.failed failure, next) => last.step = (.error failure, next) ∧ n < budget

theorem Ends.succ {last : Machine} {n budget : Nat} {ended : Ending × Machine}
    (h : last.Ends n budget ended) : last.Ends (n + 1) (budget + 1) ended := by
  obtain ⟨ending, next⟩ := ended
  cases ending with
  | finished => exact h
  | exhausted => exact ⟨h.1, congrArg (· + 1) h.2⟩
  | failed failure => exact ⟨h.1, Nat.succ_lt_succ h.2⟩

/-- Behind its last completed instruction, an iteration stays where it is or fails. -/
theorem Ends.eq_or_failed {last next : Machine} {n budget : Nat} {ending : Ending}
    (h : last.Ends n budget (ending, next)) :
    next = last ∨ ∃ failure, last.step = (.error failure, next) := by
  cases ending with
  | finished => exact .inl h.1
  | exhausted => exact .inl h.1
  | failed failure => exact .inr ⟨failure, h.1⟩

/-- What every completed instruction keeps holds behind the last one. -/
theorem iterate_ends {P : Machine → List TraceEntry → Prop}
    (hstep : ∀ s entries entry next, P s entries → s.step = (.ok (some entry), next) →
      P next (entries ++ [entry]))
    {m : Machine} {entries : List TraceEntry} (h : P m entries) (budget : Nat) :
    ∃ last, m.nth? (m.completed budget).length = some last ∧
      P last (entries ++ m.completed budget) ∧
      last.Ends (m.completed budget).length budget (m.iterate budget) := by
  -- The list grows by an entry each time that the budget shrinks by one.
  induction budget generalizing m entries with
  | zero =>
      refine ⟨m, rfl, by simpa [completed] using h, ?_⟩
      cases hf : m.isFinished with
      | true =>
          rw [iterate_of_isFinished hf]
          exact ⟨rfl, hf⟩
      | false =>
          rw [iterate_zero hf]
          exact ⟨rfl, rfl⟩
  | succ budget ih =>
      cases hf : m.isFinished with
      | true =>
          rw [completed_of_isFinished hf, iterate_of_isFinished hf]
          exact ⟨m, rfl, by simpa using h, rfl, hf⟩
      | false =>
          cases hs : m.step with
          | mk result next =>
              cases result with
              | error failure =>
                  have hc : m.completed (budget + 1) = [] := by simp [completed, hs]
                  rw [hc, iterate_succ_of_step_error hf hs]
                  exact ⟨m, rfl, by simpa using h, hs, Nat.succ_pos budget⟩
              | ok done =>
                  cases done with
                  | none =>
                      rw [(step_eq_none hs).1] at hf
                      cases hf
                  | some entry =>
                      have hc : m.completed (budget + 1) = entry :: next.completed budget := by
                        simp [completed, hs]
                      obtain ⟨last, hn, hp, he⟩ := ih (hstep m entries entry next h hs)
                      rw [hc, iterate_succ_of_step_ok hf hs]
                      refine ⟨last, ?_, by simpa using hp, ?_⟩
                      · rw [List.length_cons, nth?_succ_of_step_ok hf hs]
                        exact hn
                      · rw [List.length_cons]
                        exact he.succ

/-! ## Failing steps -/

section
variable {m next : Machine} {size : Int} (h : m.Consistent size) {failure : Failure Report}
  (hs : m.step = (.error failure, next))
include h hs

/-- A step of a consistent machine fails because nothing is loaded, or at an instruction. -/
theorem Consistent.failed_step :
    (m.program = none ∧ next = m) ∨ m.Aborted next := by
  cases hp : m.program with
  | none =>
      rw [step_of_not_loaded hp] at hs
      cases hs
      exact .inl ⟨rfl, rfl⟩
  | some program =>
      obtain ⟨cpu, hc, -, hf⟩ := h.loaded hp
      refine .inr ?_
      by_cases hl : (program.length : Int) ≤ cpu.pc
      · rw [step_of_end hp hc hl] at hs
        cases hs
      · exact aborted_of_step hp hc hf.words hf.pc_nonneg (Int.not_le.1 hl) hf.cycles_nonneg hs

/-- A step that fails leaves memory as it was. -/
theorem Consistent.memory_of_failed_step : next.memory = m.memory := by
  rcases h.failed_step hs with ⟨-, rfl⟩ | ⟨instruction, -, hr, hn⟩
  · rfl
  · by_cases hd : (Decoded.ofText instruction.text).ReadsInput
    · rw [hr hd]
      rfl
    · rw [hn hd]

end

/-! ## Runs -/

/-- The instructions that a run completes. -/
def completedByRun (m : Machine) (limit : Option Int) (budget : Nat) : List TraceEntry :=
  m.restart.completed (m.allowance limit budget)

theorem run_ends {P : Machine → List TraceEntry → Prop}
    (hstep : ∀ s entries entry next, P s entries → s.step = (.ok (some entry), next) →
      P next (entries ++ [entry]))
    {m : Machine} {program : Program} {cpu : Cpu} (hp : m.program = some program)
    (hc : m.cpu = some cpu) (h : P m.restart []) (limit : Option Int) (budget : Nat) :
    ∃ last ending, m.restart.nth? (m.completedByRun limit budget).length = some last ∧
      P last (m.completedByRun limit budget) ∧
      last.Ends (m.completedByRun limit budget).length (m.allowance limit budget)
        (ending, (m.run limit budget).2) ∧
      (m.run limit budget).1 = (m.run limit budget).2.resultOf (limit.or m.limit) ending := by
  obtain ⟨last, hn, hl, he⟩ := iterate_ends hstep h (m.allowance limit budget)
  cases hi : m.restart.iterate (m.allowance limit budget) with
  | mk ending next =>
      rw [run_of_iterate hp hc hi]
      rw [hi] at he
      exact ⟨last, ending, hn, hl, he, rfl⟩

/-- What every instruction keeps, whether it completes or fails, holds after a run. -/
theorem run_invariant {P : Machine → List TraceEntry → Prop}
    (hstep : ∀ s entries entry next, P s entries → s.step = (.ok (some entry), next) →
      P next (entries ++ [entry]))
    (hfail : ∀ s entries failure next, P s entries → s.step = (.error failure, next) →
      P next entries)
    {m : Machine} {program : Program} {cpu : Cpu} (hp : m.program = some program)
    (hc : m.cpu = some cpu) (h : P m.restart []) (limit : Option Int) (budget : Nat) :
    P (m.run limit budget).2 (m.completedByRun limit budget) := by
  obtain ⟨last, ending, -, hl, he, -⟩ := run_ends hstep hp hc h limit budget
  rcases he.eq_or_failed with hn | ⟨failure, hf⟩
  · rw [hn]
    exact hl
  · exact hfail last _ failure _ hl hf

end RegisterMachine.Machine
