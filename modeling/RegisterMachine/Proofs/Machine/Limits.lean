import RegisterMachine.Proofs.Machine.Atomicity
import RegisterMachine.Proofs.Machine.Iterates

/-!
# Limits of runs

A run is an iteration of steps that stops for one of three reasons: the steps come to the end of the
program, one of them fails, or as many of them are done as the run may take. Each of the three shows
in its own way in the result, and a limit that is not reached does not show at all.
-/

namespace RegisterMachine.Machine

/-! ## Where steps lead to -/

/-- After a number of steps, a machine has come to the end of its program. -/
def FinishesAt (m : Machine) (n : Nat) (s : Machine) : Prop :=
  m.nth? n = some s ∧ s.step.1 = .ok none

/-- After a number of steps, the next one of a machine fails. -/
def FailsAt (m : Machine) (n : Nat) (s : Machine) (failure : Failure Report) : Prop :=
  m.nth? n = some s ∧ s.step.1 = .error failure

/-- A number of steps after which a machine could go on, be it to fail. -/
def CutOff (m : Machine) (budget : Nat) : Prop :=
  (∀ n s, m.FinishesAt n s → budget < n) ∧ ∀ n s failure, m.FailsAt n s failure → budget ≤ n

/-- Run anew, a machine comes to the end of its program, and within its limit if it has one. -/
def Completes (m : Machine) : Prop :=
  ∃ n s, m.restart.FinishesAt n s ∧ ∀ bound, m.limit = some bound → n ≤ bound.toNat

structure Within (m : Machine) (program : Program) (file : String) (cpu : Cpu) : Prop where
  program_eq : m.program = some program
  file_eq : m.file = file
  cpu_eq : m.cpu = some cpu
  pc_nonneg : 0 ≤ cpu.pc
  pc_le : cpu.pc ≤ program.length

namespace Within

variable {m : Machine} {program : Program} {file : String} {cpu : Cpu}
  (h : m.Within program file cpu)
include h

/-- The check behind the instruction keeps the machine within its program. -/
theorem step {entry : TraceEntry} {next : Machine} (hs : m.step = (.ok (some entry), next)) :
    next.Within program file entry.after ∧ entry.after.HoldsWords ∧
      entry.after.cycles = cpu.cycles + 1 := by
  obtain ⟨program', hp, hc, -, -, hx⟩ := step_eq_ok hs
  obtain rfl : program' = program := Option.some.inj (hp.symm.trans h.program_eq)
  obtain rfl : entry.before = cpu := Option.some.inj (hc.symm.trans h.cpu_eq)
  obtain ⟨world, hr, hv, -, rfl⟩ := executeAt_eq_ok hx
  obtain ⟨hw, h0, hl, -⟩ := Cpu.isValid_iff.1 hv
  rw [complete_eq]
  exact ⟨⟨hp, h.file_eq, rfl, h0, hl⟩, hw, Registry.cycles_of_execute hr⟩

/-- The steps of such a machine end with the program, go on, or fail. -/
theorem step_cases :
    (m.isFinished = true ∧ m.step = (.ok none, m)) ∨
      m.isFinished = false ∧
        ((∃ entry next, m.step = (.ok (some entry), next)) ∨
          ∃ failure next, m.step = (.error failure, next)) := by
  rw [isFinished_of_loaded h.program_eq h.cpu_eq]
  by_cases hl : (program.length : Int) ≤ cpu.pc
  · exact .inl ⟨decide_eq_true hl, step_of_end h.program_eq h.cpu_eq hl⟩
  · have hlt : cpu.pc < program.length := Int.not_le.1 hl
    obtain ⟨instruction, hf⟩ := Program.exists_fetch? h.pc_nonneg hlt
    refine .inr ⟨decide_eq_false hl, ?_⟩
    rw [step_of_fetch h.program_eq h.cpu_eq hlt (Program.fetch_of_fetch? hf)]
    cases m.executeAt program cpu instruction with
    | mk result next =>
        cases result with
        | error failure => exact .inr ⟨failure, next, rfl⟩
        | ok entry => exact .inl ⟨entry, next, rfl⟩

theorem nth? {k : Nat} {s : Machine} (hk : m.nth? k = some s) :
    ∃ reached, s.Within program file reached ∧ (cpu.HoldsWords → reached.HoldsWords) ∧
      reached.cycles = cpu.cycles + k := by
  induction k generalizing m cpu with
  | zero =>
      cases hk
      exact ⟨cpu, h, id, by simp⟩
  | succ k ih =>
      rcases h.step_cases with ⟨hf, -⟩ | ⟨hf, ⟨entry, next, hs⟩ | ⟨failure, next, hs⟩⟩
      · simp [nth?_succ_of_isFinished hf] at hk
      · rw [nth?_succ_of_step_ok hf hs] at hk
        obtain ⟨hn, hw, hy⟩ := h.step hs
        obtain ⟨reached, ha, hwords, hcycles⟩ := ih hn hk
        exact ⟨reached, ha, fun _ => hwords hw, by omega⟩
      · simp [nth?_succ_of_step_error hf hs] at hk

theorem isFinished_of_step (hs : m.step.1 = .ok none) : m.isFinished = true := by
  rcases h.step_cases with ⟨hf, -⟩ | ⟨-, ⟨entry, next, he⟩ | ⟨failure, next, he⟩⟩
  · exact hf
  · simp [he] at hs
  · simp [he] at hs

theorem not_isFinished_of_step {failure : Failure Report} (hs : m.step.1 = .error failure) :
    m.isFinished = false := by
  rcases h.step_cases with ⟨-, he⟩ | ⟨hf, -⟩
  · simp [he] at hs
  · exact hf

/-- The end of the program is right behind its last instruction. -/
theorem pc_of_isFinished (hf : m.isFinished = true) : cpu.pc = program.length := by
  have hl := h.pc_le
  rw [isFinished_of_loaded h.program_eq h.cpu_eq, decide_eq_true_eq] at hf
  omega

theorem pc_lt_of_isFinished (hf : m.isFinished = false) : cpu.pc < program.length := by
  rw [isFinished_of_loaded h.program_eq h.cpu_eq, decide_eq_false_iff_not] at hf
  exact Int.not_le.1 hf

/-- A machine that could go on after some number of steps has done them. -/
theorem nth?_of_cutOff {budget : Nat} (hb : m.CutOff budget) :
    ∃ s, m.nth? budget = some s ∧ s.isFinished = false := by
  induction budget generalizing m cpu with
  | zero =>
      refine ⟨m, rfl, ?_⟩
      rcases h.step_cases with ⟨-, hs⟩ | ⟨hf, -⟩
      · have hn := hb.1 0 m ⟨rfl, by rw [hs]⟩
        omega
      · exact hf
  | succ budget ih =>
      rcases h.step_cases with ⟨-, hs⟩ | ⟨hf, ⟨entry, next, hs⟩ | ⟨failure, next, hs⟩⟩
      · have hn := hb.1 0 m ⟨rfl, by rw [hs]⟩
        omega
      · have hk (k : Nat) : m.nth? (k + 1) = next.nth? k := nth?_succ_of_step_ok hf hs k
        rw [hk]
        refine ih (h.step hs).1 ⟨?_, ?_⟩
        · intro n s hn
          have hlt := hb.1 (n + 1) s ⟨(hk n).trans hn.1, hn.2⟩
          omega
        · intro n s failure hn
          have hle := hb.2 (n + 1) s failure ⟨(hk n).trans hn.1, hn.2⟩
          omega
      · have hn := hb.2 0 m failure ⟨rfl, by rw [hs]⟩
        omega

theorem resultWith (ok : Bool) (error : Option Report) :
    m.resultWith ok error =
      { ok, cycles := cpu.cycles, pc := cpu.pc, error, trace := m.trace } := by
  simp [Machine.resultWith, Machine.cycles, h.cpu_eq]

theorem limitReport {instruction : Instruction} (hi : program.fetch? cpu.pc = some instruction)
    (limit : Int) :
    m.limitReport limit =
      { fault := .cycleLimit limit
        site := some { file, line := instruction.line, index := cpu.pc,
                       text := instruction.text } } := by
  simp [Machine.limitReport, h.cpu_eq, h.program_eq, hi, siteOf, h.file_eq]

theorem resultOfFailure_limit {instruction : Instruction}
    (hi : program.fetch? cpu.pc = some instruction) (limit : Int) :
    m.resultOfFailure (m.limitFailure limit) =
      if Text.isWritable limit then
        .ok
          { ok := false
            cycles := cpu.cycles
            pc := cpu.pc
            error := some
              { fault := .cycleLimit limit
                site := some { file, line := instruction.line, index := cpu.pc,
                               text := instruction.text } }
            trace := m.trace }
      else .error .unwritable := by
  cases hw : Text.isWritable limit with
  | true =>
      rw [limitFailure_of_writable hw, resultOfFailure, h.resultWith, h.limitReport hi, if_pos rfl]
  | false =>
      rw [limitFailure_of_not_writable hw, resultOfFailure, if_neg Bool.false_ne_true]

end Within

/-- Some number of steps leads to the end of the program, to a failure, or no further. -/
theorem ends_cases (m : Machine) (budget : Nat) :
    (∃ n s, m.FinishesAt n s ∧ n ≤ budget) ∨
      (∃ n s failure, m.FailsAt n s failure ∧ n < budget) ∨ m.CutOff budget := by
  by_cases hfin : ∃ n s, m.FinishesAt n s ∧ n ≤ budget
  · exact .inl hfin
  · by_cases hfail : ∃ n s failure, m.FailsAt n s failure ∧ n < budget
    · exact .inr (.inl hfail)
    · refine .inr (.inr ⟨fun n s hn => ?_, fun n s failure hn => ?_⟩)
      · exact Nat.lt_of_not_le fun hl => hfin ⟨n, s, hn, hl⟩
      · exact Nat.le_of_not_lt fun hl => hfail ⟨n, s, failure, hn, hl⟩

/-! ## Iterations -/

section
variable {m : Machine} {program : Program} {file : String} {cpu : Cpu}
  (h : m.Within program file cpu) {budget : Nat}
include h

theorem iterate_of_finishesAt {n : Nat} {s : Machine} (hn : m.FinishesAt n s) (hb : n ≤ budget) :
    m.iterate budget = (.finished, s) := by
  obtain ⟨reached, hs, -, -⟩ := h.nth? hn.1
  have hf : s.isFinished = true := hs.isFinished_of_step hn.2
  rw [show budget = n + (budget - n) by omega, iterate_add hn.1, iterate_of_isFinished hf]

theorem iterate_of_failsAt {n : Nat} {s : Machine} {failure : Failure Report}
    (hn : m.FailsAt n s failure) (hb : n < budget) :
    m.iterate budget = (.failed failure, s.step.2) := by
  obtain ⟨reached, hs, -, -⟩ := h.nth? hn.1
  have hf : s.isFinished = false := hs.not_isFinished_of_step hn.2
  have he : s.step = (.error failure, s.step.2) := by rw [← hn.2]
  rw [show budget = n + (budget - n - 1 + 1) by omega, iterate_add hn.1,
    iterate_succ_of_step_error hf he]

theorem iterate_of_cutOff (hb : m.CutOff budget) :
    ∃ s, m.nth? budget = some s ∧ s.isFinished = false ∧
      m.iterate budget = (.exhausted, s) := by
  obtain ⟨s, hs, hf⟩ := h.nth?_of_cutOff hb
  exact ⟨s, hs, hf, (iterate_add hs 0).trans (iterate_zero hf)⟩

end

/-! ## Runs -/

/-- The number of steps that a run may take: its limit, which allows none if it is negative, or the
budget if there is no limit. -/
def allowance (m : Machine) (limit : Option Int) (budget : Nat) : Nat :=
  (limit.or m.limit).elim budget Int.toNat

/-- The result of a run that has come to an end. Without a limit there is none if that is the end of
the budget. -/
def resultOf (m : Machine) (limit : Option Int) : Ending → Option (Except Crash RunResult)
  | .finished => some (.ok (m.resultWith true none))
  | .failed failure => some (m.resultOfFailure failure)
  | .exhausted => limit.map fun bound => m.resultOfFailure (m.limitFailure bound)

/-- What a run that has a result has come to. -/
theorem resultOf_eq_ok {s : Machine} {limit : Option Int} {ending : Ending} {result : RunResult}
    (h : s.resultOf limit ending = some (.ok result)) :
    (ending = .finished ∧ result = s.resultWith true none) ∨
      (∃ report, ending = .failed (.fault report) ∧ result = s.resultWith false (some report)) ∨
      ∃ bound, ending = .exhausted ∧ limit = some bound ∧ Text.isWritable bound = true ∧
        result = s.resultWith false (some (s.limitReport bound)) := by
  cases ending with
  | finished =>
      cases h
      exact .inl ⟨rfl, rfl⟩
  | failed failure =>
      cases failure with
      | fault report =>
          cases h
          exact .inr (.inl ⟨report, rfl, rfl⟩)
      | crash reason => cases h
  | exhausted =>
      obtain ⟨bound, hl, hb⟩ := Option.map_eq_some_iff.1 h
      cases hw : Text.isWritable bound with
      | true =>
          rw [limitFailure_of_writable hw] at hb
          cases hb
          exact .inr (.inr ⟨bound, rfl, hl, hw, rfl⟩)
      | false =>
          rw [limitFailure_of_not_writable hw] at hb
          cases hb

section
variable {m : Machine} {program : Program} {cpu : Cpu} (hp : m.program = some program)
  (hc : m.cpu = some cpu) {limit : Option Int} {budget : Nat} {s : Machine}
include hp hc

theorem within_restart : m.restart.Within program m.file cpu.restart where
  program_eq := hp
  file_eq := rfl
  cpu_eq := by simp only [restart, hc, Option.map_some]
  pc_nonneg := Int.le_refl 0
  pc_le := Int.natCast_nonneg _

theorem run_of_iterate {ending : Ending}
    (h : m.restart.iterate (m.allowance limit budget) = (ending, s)) :
    m.run limit budget = (s.resultOf (limit.or m.limit) ending, s) := by
  unfold allowance at h
  cases hl : limit.or m.limit with
  | none =>
      rw [hl] at h
      rw [run_of_no_limit hp hc hl, runFreely, show m.restart.iterate budget = _ from h]
      cases ending <;> rfl
  | some bound =>
      rw [hl] at h
      rw [run_of_limit hp hc hl, runWithin, show m.restart.iterate bound.toNat = _ from h]
      cases ending <;> rfl

theorem run_of_finishesAt {n : Nat} (h : m.restart.FinishesAt n s)
    (hn : n ≤ m.allowance limit budget) :
    m.run limit budget =
      (some (.ok { ok := true, cycles := n, pc := program.length, trace := s.trace }), s) := by
  have hm := within_restart hp hc
  obtain ⟨reached, hs, -, hy⟩ := hm.nth? h.1
  have hpc : reached.pc = program.length := hs.pc_of_isFinished (hs.isFinished_of_step h.2)
  have hcycles : reached.cycles = n := by simpa [Cpu.restart, Cpu.resetCycles] using hy
  rw [run_of_iterate hp hc (iterate_of_finishesAt hm h hn), resultOf, hs.resultWith, hpc, hcycles]

theorem run_of_failsAt {n : Nat} {failure : Failure Report} (h : m.restart.FailsAt n s failure)
    (hn : n < m.allowance limit budget) :
    s.cycles = n ∧ m.run limit budget = (some (s.resultOfFailure failure), s.step.2) ∧
      s.step.2 = { s with toWorld := s.step.2.toWorld } ∧
      (cpu.HoldsWords → s.Aborted s.step.2) := by
  have hm := within_restart hp hc
  obtain ⟨reached, hs, hw, hy⟩ := hm.nth? h.1
  have hcycles : reached.cycles = n := by simpa [Cpu.restart, Cpu.resetCycles] using hy
  have he : s.step = (.error failure, s.step.2) := by rw [← h.2]
  have hk : s.step.2 = { s with toWorld := s.step.2.toWorld } := step_eq_error he
  have hr : s.step.2.resultOfFailure failure = s.resultOfFailure failure := by
    rw [hk]
    rfl
  refine ⟨by simp [cycles, hs.cpu_eq, hcycles], ?_, hk, ?_⟩
  · rw [run_of_iterate hp hc (iterate_of_failsAt hm h hn), resultOf, hr]
  · intro hwords
    have hlt : reached.pc < program.length := hs.pc_lt_of_isFinished (hs.not_isFinished_of_step h.2)
    exact aborted_of_step hs.program_eq hs.cpu_eq (hw ⟨hwords.length_eq, hwords.inRange⟩)
      hs.pc_nonneg hlt (by omega) he

theorem run_of_cutOff (h : m.restart.CutOff (m.allowance limit budget)) :
    ∃ s reached instruction, m.restart.nth? (m.allowance limit budget) = some s ∧
      s.cpu = some reached ∧ program.fetch? reached.pc = some instruction ∧
      m.run limit budget =
        ((limit.or m.limit).map fun bound =>
          if Text.isWritable bound then
            .ok
              { ok := false
                cycles := m.allowance limit budget
                pc := reached.pc
                error := some
                  { fault := .cycleLimit bound
                    site := some { file := m.file, line := instruction.line, index := reached.pc,
                                   text := instruction.text } }
                trace := s.trace }
          else .error .unwritable, s) := by
  have hm := within_restart hp hc
  obtain ⟨s, hn, hf, hi⟩ := iterate_of_cutOff hm h
  obtain ⟨reached, hs, -, hy⟩ := hm.nth? hn
  have hcycles : reached.cycles = m.allowance limit budget := by
    simpa [Cpu.restart, Cpu.resetCycles] using hy
  obtain ⟨instruction, hins⟩ := Program.exists_fetch? hs.pc_nonneg (hs.pc_lt_of_isFinished hf)
  refine ⟨s, reached, instruction, hn, hs.cpu_eq, hins, ?_⟩
  simp only [run_of_iterate hp hc hi, resultOf, hs.resultOfFailure_limit hins, hcycles]

/-- A limit that cuts a run off at its start and cannot be written leaves it without a result. -/
theorem run_of_unwritable (hf : m.restart.isFinished = false) {bound : Int} (hb : bound ≤ 0)
    (hw : Text.isWritable bound = false) (budget : Nat) :
    m.run (some bound) budget = (some (.error .unwritable), m.restart) := by
  rw [run_of_limit hp hc rfl, runWithin, Int.toNat_of_nonpos hb, iterate_zero hf]
  simp only [limitFailure_of_not_writable hw, resultOfFailure]

/-- A run that was not cut off goes the same way if it may take more steps. -/
theorem run_of_not_cutOff (h : ¬m.restart.CutOff (m.allowance limit budget))
    {higher : Option Int} {more : Nat}
    (hle : m.allowance limit budget ≤ m.allowance higher more) :
    m.run higher more = m.run limit budget := by
  rcases m.restart.ends_cases (m.allowance limit budget) with
    ⟨n, s, hn, hl⟩ | ⟨n, s, failure, hn, hl⟩ | hcut
  · rw [run_of_finishesAt hp hc hn hl, run_of_finishesAt hp hc hn (hl.trans hle)]
  · rw [(run_of_failsAt hp hc hn hl).2.1, (run_of_failsAt hp hc hn (hl.trans_le hle)).2.1]
  · exact (h hcut).elim

/-- Steps do not both come to the end of the program and fail. -/
theorem not_finishesAt_of_failsAt {n k : Nat} {s' : Machine} {failure : Failure Report}
    (h : m.restart.FailsAt k s' failure) : ¬m.restart.FinishesAt n s := by
  intro hn
  have hm := within_restart hp hc
  have he := iterate_of_finishesAt hm hn (Nat.le_max_left n (k + 1))
  rw [iterate_of_failsAt hm h (Nat.le_max_right n (k + 1))] at he
  cases he

/-- A run that has a result is a success exactly if the machine completes its program. -/
theorem ok_of_run_iff {result : RunResult} (hr : (m.run none budget).1 = some (.ok result)) :
    result.ok = true ↔ m.Completes := by
  rcases m.restart.ends_cases (m.allowance none budget) with
    ⟨n, s, hn, hl⟩ | ⟨n, s, failure, hn, hl⟩ | hcut
  · rw [run_of_finishesAt hp hc hn hl] at hr
    cases hr
    refine iff_of_true rfl ⟨n, s, hn, fun bound hb => ?_⟩
    simpa [allowance, hb] using hl
  · rw [(run_of_failsAt hp hc hn hl).2.1] at hr
    refine iff_of_false ?_ fun ⟨k, _, hk, _⟩ => not_finishesAt_of_failsAt hp hc hn hk
    cases failure with
    | fault report => cases hr; exact Bool.false_ne_true
    | crash reason => cases hr
  · obtain ⟨s, reached, instruction, -, -, -, hrun⟩ := run_of_cutOff hp hc hcut
    rw [hrun] at hr
    obtain ⟨bound, hb, hresult⟩ := Option.map_eq_some_iff.1 hr
    have hok : result.ok = false := by
      split at hresult <;> cases hresult
      rfl
    rw [hok]
    refine iff_of_false Bool.false_ne_true fun ⟨k, s, hk, hl⟩ => ?_
    -- The limit that has cut off the run is in the way of its completion as well.
    have hlimit : m.limit = some bound := hb
    have hlt : m.allowance none budget < k := hcut.1 k s hk
    have hle : k ≤ m.allowance none budget := by simpa [allowance, hlimit] using hl bound hlimit
    omega

end

/-- What a result of a run says: the program came to its end, or there is an error. -/
theorem ok_or_error_of_run {m : Machine} {limit : Option Int} {budget : Nat} {result : RunResult}
    (hr : (m.run limit budget).1 = some (.ok result)) :
    result.ok = true ∧ result.error = none ∨
      result.ok = false ∧ ∃ report, result.error = some report := by
  by_cases hl : (m.program.isSome && m.cpu.isSome) = true
  · rw [Bool.and_eq_true] at hl
    obtain ⟨program, hp⟩ := Option.isSome_iff_exists.1 hl.1
    obtain ⟨cpu, hc⟩ := Option.isSome_iff_exists.1 hl.2
    rw [run_of_iterate hp hc rfl] at hr
    rcases resultOf_eq_ok hr with ⟨-, rfl⟩ | ⟨report, -, rfl⟩ | ⟨bound, -, -, -, rfl⟩
    · exact .inl ⟨rfl, rfl⟩
    · exact .inr ⟨rfl, report, rfl⟩
    · exact .inr ⟨rfl, _, rfl⟩
  · rw [run, if_neg hl] at hr
    cases hr
    exact .inr ⟨rfl, _, rfl⟩

/-- A run is a bounded iteration of steps from the restarted machine. Steps that come to the end of
the program within what the run may take make it a success; so does a failure of a step make it
report that failure, or crash, and leaves the machine as it was in front of that step. Otherwise
the run has done all the steps that it may take and reports its limit where it stands, unless the
limit has so many digits that the run crashes over it; without a limit, it has no result then,
however large the budget. A run that was not cut off stays the same under a higher limit. -/
theorem run_iterates_step {m : Machine} {program : Program} {cpu : Cpu}
    (hp : m.program = some program) (hc : m.cpu = some cpu) (limit : Option Int) (budget : Nat) :
    (∀ n s, m.restart.FinishesAt n s → n ≤ m.allowance limit budget →
      m.run limit budget =
        (some (.ok { ok := true, cycles := n, pc := program.length, trace := s.trace }), s)) ∧
    (∀ n s failure, m.restart.FailsAt n s failure → n < m.allowance limit budget →
      s.cycles = n ∧ m.run limit budget = (some (s.resultOfFailure failure), s.step.2) ∧
        s.step.2 = { s with toWorld := s.step.2.toWorld } ∧
        (cpu.HoldsWords → s.Aborted s.step.2)) ∧
    (m.restart.CutOff (m.allowance limit budget) →
      ∃ s reached instruction, m.restart.nth? (m.allowance limit budget) = some s ∧
        s.cpu = some reached ∧ program.fetch? reached.pc = some instruction ∧
        m.run limit budget =
          ((limit.or m.limit).map fun bound =>
            if Text.isWritable bound then
              .ok
                { ok := false
                  cycles := m.allowance limit budget
                  pc := reached.pc
                  error := some
                    { fault := .cycleLimit bound
                      site := some { file := m.file, line := instruction.line, index := reached.pc,
                                     text := instruction.text } }
                  trace := s.trace }
            else .error .unwritable, s)) ∧
    (¬m.restart.CutOff (m.allowance limit budget) → ∀ higher more,
      m.allowance limit budget ≤ m.allowance higher more →
        m.run higher more = m.run limit budget) := by
  refine ⟨?_, ?_, ?_, ?_⟩
  · intro n s hn hl
    exact run_of_finishesAt hp hc hn hl
  · intro n s failure hn hl
    exact run_of_failsAt hp hc hn hl
  · intro h
    exact run_of_cutOff hp hc h
  · intro h higher more hle
    exact run_of_not_cutOff hp hc h hle

/-- A program of two instructions comes to its end under a limit of two, and has no result under a
limit that cannot be written. -/
theorem run_iterates_step_at_limit :
    let m : Machine :=
      { memory := Memory.zeroed 4 (by decide) (by decide)
        console := {}
        program := some { instructions := #[{ text := "MOV R1, #5", line := 1 },
                                            { text := "OUT R1", line := 2 }] }
        cpu := some { pc := 1, flag := { enabled := true, left := 3, right := 4 }, cycles := 7 } }
    (∃ s, m.restart.FinishesAt 2 s ∧
      m.run (some 2) 0 =
        (some (.ok { ok := true, cycles := 2, pc := 2, trace := s.trace }), s)) ∧
    m.run (some (-(Text.unwritable : Int))) 0 = (some (.error .unwritable), m.restart) := by
  intro m
  have hp : m.program = some _ := rfl
  have hc : m.cpu = some _ := rfl
  have hm : ((m.restart.nth? 2).any fun s => s.step.1 = .ok none) = true := by decide +kernel
  refine ⟨?_, run_of_unwritable hp hc (by decide +kernel) (by omega)
    Text.isWritable_neg_unwritable 0⟩
  cases hs : m.restart.nth? 2 with
  | none => simp [hs] at hm
  | some s =>
      have hf : m.restart.FinishesAt 2 s := ⟨hs, by simpa [hs] using hm⟩
      have hr := (run_iterates_step hp hc (some 2) 0).1 2 s hf (by decide)
      exact ⟨s, hf, hr⟩

end RegisterMachine.Machine
