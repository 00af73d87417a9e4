import RegisterMachine.Proofs.Machine.Agreement
import RegisterMachine.Proofs.Machine.Conversation

/-!
# Runs that are taken up again

A run that its limit has cut off, or that has stopped because there was no line to read, leaves the
machine where it was in front of the next instruction. Stepping takes the run up there: the steps
lead through what a run without a limit would have led through, and to the same end. A run that had
to wait for a line has asked for it once more than one that had the line from the start.
-/

namespace RegisterMachine

def Guise.prompted (g : Guise) : Guise :=
  { g with shown := g.shown.push (.prompt inputPrompt) }

namespace Machine

/-! ## Runs without a limit -/

/-- After a number of cycles, a run without a limit is at a machine. If that can go on, a budget of
as many cycles is used up there; if it is at the end of its program, the run finishes with it; and
if its next instruction fails, then so does the run. -/
structure RunsThrough (m : Machine) (n : Nat) (s : Machine) : Prop where
  passes : s.isFinished = false → m.runFreely n = (none, s)
  finishes : s.step.1 = .ok none → ∀ budget, n ≤ budget →
    m.runFreely budget = (some (.ok (s.resultWith true none)), s)
  fails : ∀ failure, s.step.1 = .error failure → ∀ budget, n < budget →
    m.runFreely budget = (some (s.resultOfFailure failure), s.step.2)

theorem resultOfFailure_step {s : Machine} {failure : Failure Report}
    (h : s.step.1 = .error failure) :
    s.step.2.resultOfFailure failure = s.resultOfFailure failure := by
  have hs : s.step = (.error failure, s.step.2) := by rw [← h]
  rw [step_eq_error hs]
  rfl

section
variable {m : Machine} {program : Program} {cpu : Cpu} (hp : m.program = some program)
  (hc : m.cpu = some cpu)
include hp hc

theorem runsThrough_of_nth? {n : Nat} {s : Machine} (h : m.restart.nth? n = some s) :
    m.RunsThrough n s where
  passes hf := by
    have hi : m.restart.iterate n = (.exhausted, s) := (iterate_add h 0).trans (iterate_zero hf)
    simp only [runFreely, hi]
  finishes hs budget hb := by
    have hi := iterate_of_finishesAt (within_restart hp hc) ⟨h, hs⟩ hb
    simp only [runFreely, hi]
  fails failure hs budget hb := by
    have hi := iterate_of_failsAt (within_restart hp hc) ⟨h, hs⟩ hb
    simp only [runFreely, hi, resultOfFailure_step hs]

end

/-! ## Limits -/

/-- A run that reports its limit has used it up. -/
theorem Consistent.nth?_of_limit {m : Machine} {size : Int} (h : m.Consistent size)
    {program : Program} (hp : m.program = some program) {limit : Option Int} {budget : Nat}
    {result : RunResult} (hr : (m.run limit budget).1 = some (.ok result)) {report : Report}
    (he : result.error = some report) {bound : Int} (hb : report.fault = .cycleLimit bound) :
    m.restart.nth? bound.toNat = some (m.run limit budget).2 := by
  obtain ⟨cpu, hc, -, -⟩ := h.loaded hp
  obtain ⟨-, hending⟩ := h.restart.iterate (m.allowance limit budget)
  cases hi : m.restart.iterate (m.allowance limit budget) with
  | mk ending s =>
      rw [run_of_iterate hp hc hi] at hr ⊢
      rw [hi] at hending
      rcases resultOf_eq_ok hr with ⟨rfl, rfl⟩ | ⟨fault, rfl, rfl⟩ | ⟨own, rfl, hlimit, -, rfl⟩
      · cases he
      · -- No instruction fails by a limit.
        cases he
        have hof : report.fault.OfInstruction := hending
        rw [hb] at hof
        exact hof.elim
      · cases he
        obtain rfl : own = bound := Fault.cycleLimit.inj hb
        have ha : m.allowance limit budget = own.toNat := by
          simp only [allowance, hlimit, Option.elim_some]
        rw [← ha]
        exact (nth?_of_exhausted hi).1

/-! ## Lines to read -/

theorem step_feed {m next : Machine} {entry : TraceEntry} (h : m.step = (.ok (some entry), next))
    (lines : List String) : (m.feed lines).step = (.ok (some entry), next.feed lines) := by
  obtain ⟨program, hp, hc, hl, hf, hx⟩ := step_eq_ok h
  obtain ⟨world, hr, hv, he, rfl⟩ := executeAt_eq_ok hx
  have hr' := Registry.execute_feed lines hr
  have hx' := executeAt_of_ok (m := m.feed lines) hr' hv
  rw [← he] at hx'
  have hs := step_of_fetch (m := m.feed lines) hp hc hl hf
  rw [hx'] at hs
  rw [hs, complete_eq, complete_eq]
  rfl

/-- Steps that complete lead to the same if there is more to read. -/
theorem nth?_feed {m s : Machine} {k : Nat} (h : m.nth? k = some s) (lines : List String) :
    (m.feed lines).nth? k = some (s.feed lines) := by
  induction k generalizing m with
  | zero =>
      cases h
      rfl
  | succ k ih =>
      have hfeed : (m.feed lines).isFinished = m.isFinished := rfl
      cases hf : m.isFinished with
      | true => simp [nth?_succ_of_isFinished hf] at h
      | false =>
          cases hs : m.step with
          | mk result next =>
              cases result with
              | error failure => simp [nth?_succ_of_step_error hf hs] at h
              | ok done =>
                  rw [nth?_succ_of_step_ok hf hs] at h
                  cases done with
                  | none =>
                      rw [(step_eq_none hs).1] at hf
                      cases hf
                  | some entry =>
                      rw [nth?_succ_of_step_ok (hfeed.trans hf) (step_feed hs lines)]
                      exact ih h

def prompted (m : Machine) : Machine :=
  { m with toWorld := m.toWorld.prompted }

/-- A machine is in the place of another one, and has asked for a line once more. -/
structure PromptedOnceMore (other m : Machine) : Prop where
  cpu_eq : m.cpu = other.cpu
  memory_eq : m.memory = other.memory
  trace_eq : m.trace = other.trace
  pending_eq : m.console.pending = other.console.pending
  outputs_eq : m.console.outputs = other.console.outputs
  prompts : ∃ front back, other.console.prompts = front ++ back ∧
    m.console.prompts = front ++ inputPrompt :: back
  answer_eq : m.step.1 = other.step.1

theorem Agree.promptedOnceMore {g : Guise} {other m : Machine} (h : Agree g g.prompted other m) :
    PromptedOnceMore other m := by
  obtain ⟨more, hshown, hshown'⟩ := h.world.added
  have hp : g.program = g.prompted.program := rfl
  refine ⟨h.cpu_eq.symm, h.world.memory_eq.symm, (h.trace.eq hp rfl rfl).symm,
    h.world.pending_eq.symm, ?_, ?_, (h.step.answer_eq hp rfl).symm⟩
  · simp [Console.outputs, hshown, hshown', Guise.prompted, List.filterMap_cons, Shown.output?]
  · refine ⟨g.shown.toList.filterMap Shown.prompt?, more.toList.filterMap Shown.prompt?, ?_, ?_⟩
    · simp [Console.prompts, hshown]
    · simp [Console.prompts, hshown', Guise.prompted, Shown.prompt?]

section
variable {m : Machine} {size : Int} (h : m.Consistent size) {program : Program}
  (hp : m.program = some program) {limit : Option Int} {budget : Nat}
include h hp

/-- A run that waits for a line has stopped in front of the instruction that reads it. -/
theorem Consistent.stops_waiting (hw : m.StopsWaiting limit budget) :
    ∃ n last, m.restart.nth? n = some last ∧ last.console.pending = [] ∧ last.cycles = n ∧
      (m.run limit budget).2 = last.prompted := by
  obtain ⟨cpu, hc, -, hf⟩ := h.loaded hp
  obtain ⟨last, instruction, ⟨hlt, hi, failure, hfails⟩, hd, hempty⟩ := hw
  obtain ⟨hcycles, hrun, -, haborted⟩ := run_of_failsAt hp hc hfails hlt
  obtain ⟨other, ho, hread, -⟩ := haborted hf.words
  obtain rfl : other = instruction := Option.some.inj (ho.symm.trans hi)
  refine ⟨_, last, hfails.1, hempty, hcycles, ?_⟩
  rw [hrun]
  exact hread hd

/-- With lines to read, it goes on as it would have done if it had not had to wait. -/
theorem Consistent.agree_of_waiting {n : Nat} {last : Machine} (hn : m.restart.nth? n = some last)
    (he : last.console.pending = []) (lines : List String) :
    Agree ((last.feed lines).guise program) ((last.feed lines).guise program).prompted
      (last.feed lines) (last.prompted.feed lines) := by
  obtain ⟨cpu, hc, -, -⟩ := h.loaded hp
  obtain ⟨reached, hw, -, -⟩ := (within_restart hp hc).nth? hn
  have hcons : (last.feed lines).Consistent size := (h.restart.nth? hn).withConsole _
  -- The prompt has taken no line, because there was none.
  have hq : last.console.pending ++ lines = last.console.pending.tail ++ lines := by
    rw [he]
    rfl
  exact hcons.agree (b := last.prompted.feed lines) hw.program_eq hw.program_eq rfl rfl rfl hq

end

/-- A run that was aborted can be taken up by steps. If its limit has cut it off, then the steps
lead through the machines that a run without a limit leads through after as many cycles. If there
was no line to read, then the steps after lines have been fed lead through the same processors,
memories, traces and outputs as a run without a limit that had these lines from the start, and have
the same answers; the one difference is that there is one prompt more. -/
theorem run_resumed_by_steps {m : Machine} {size : Int} (h : m.Consistent size) {program : Program}
    (hp : m.program = some program) (limit : Option Int) (budget : Nat) :
    (∀ result report bound, (m.run limit budget).1 = some (.ok result) →
      result.error = some report → report.fault = .cycleLimit bound →
      ∀ j, (m.run limit budget).2.nth? j = m.restart.nth? (bound.toNat + j) ∧
        ∀ s, (m.run limit budget).2.nth? j = some s → m.RunsThrough (bound.toNat + j) s) ∧
    (m.StopsWaiting limit budget → ∀ lines, ∃ n : Nat, (m.run limit budget).2.cycles = n ∧
      ∀ j, Option.Rel PromptedOnceMore ((m.feed lines).restart.nth? (n + j))
          (((m.run limit budget).2.feed lines).nth? j) ∧
        ∀ s, (m.feed lines).restart.nth? (n + j) = some s →
          (m.feed lines).RunsThrough (n + j) s) := by
  obtain ⟨cpu, hc, -, -⟩ := h.loaded hp
  refine ⟨?_, ?_⟩
  · intro result report bound hr he hb j
    have hn := h.nth?_of_limit hp hr he hb
    have hj := nth?_add hn j
    refine ⟨hj.symm, ?_⟩
    intro s hs
    exact runsThrough_of_nth? hp hc (hj.trans hs)
  · intro hw lines
    obtain ⟨n, last, hn, he, hcycles, hrun⟩ := h.stops_waiting hp hw
    rw [hrun]
    refine ⟨n, hcycles, ?_⟩
    intro j
    refine ⟨?_, ?_⟩
    · have hfed : (m.feed lines).restart.nth? n = some (last.feed lines) := nth?_feed hn lines
      rw [nth?_add hfed]
      have hrel := (h.agree_of_waiting hp hn he lines).nth? j
      generalize (last.feed lines).nth? j = reached at hrel ⊢
      generalize (last.prompted.feed lines).nth? j = reached' at hrel ⊢
      cases hrel with
      | none => exact .none
      | some hagree => exact .some hagree.promptedOnceMore
    · intro s hs
      exact runsThrough_of_nth? (m := m.feed lines) hp hc hs

/-- A loop that sums up its input, cut off after three cycles, and stopped after four because there
was one line only. -/
theorem run_resumed_by_steps_sum :
    let m : Machine :=
      { memory := .zeroed 4 (by decide) (by decide)
        console := { pending := ["1"] }
        tracing := true }
    let s := (m.loadText "again:\nIN R0\nADD R1, R1, R0\nOUT R1\nB again" "sum").2
    s.Consistent 4 ∧ (s.run (some 3) 0).2.cycles = 3 ∧
      (∀ j, (s.run (some 3) 0).2.nth? j = s.restart.nth? (3 + j)) ∧
      s.StopsWaiting none 20 ∧ (s.run none 20).2.cycles = 4 ∧
      ∀ j, Option.Rel PromptedOnceMore ((s.feed ["2"]).restart.nth? (4 + j))
        (((s.run none 20).2.feed ["2"]).nth? j) := by
  intro m s
  have hm : create 4 { pending := ["1"] } 4 none true = .ok m := rfl
  have hs : s.Consistent 4 := (consistent_create hm).loadText _ _
  have hp : s.program = some
      { instructions := #[{ text := "IN R0", line := 2 }, { text := "ADD R1, R1, R0", line := 3 },
                          { text := "OUT R1", line := 4 }, { text := "B again", line := 5 }]
        labels := { entries := [("again", 0)] } } := by
    decide +kernel
  have hcut : ((s.run (some 3) 0).1.any fun outcome => outcome.toOption.any fun result =>
      result.error.any fun report => report.fault = .cycleLimit 3) = true := by
    decide +kernel
  have hn : ((s.restart.nth? (s.completedByRun none 20).length).any fun last =>
      last.current? = some { text := "IN R0", line := 2 } && last.console.pending = [] &&
        last.step.1 = .error (.fault
          { fault := .badInput
            site := some { file := "sum", line := 2, index := 0, text := "IN R0" } })) = true := by
    decide +kernel
  have hcycles : (s.run none 20).2.cycles = 4 := by decide +kernel
  have hwaits : s.StopsWaiting none 20 := by
    obtain ⟨last, hlast, hfacts⟩ := (Option.any_eq_true _ _).1 hn
    simp only [Bool.and_eq_true, decide_eq_true_eq] at hfacts
    obtain ⟨⟨hi, he⟩, hstep⟩ := hfacts
    exact ⟨last, _, ⟨by decide +kernel, hi, _, hlast, hstep⟩,
      ⟨by decide +kernel, "R0", ⟨0, by decide⟩, by decide +kernel, rfl⟩, he⟩
  refine ⟨hs, by decide +kernel, ?_, hwaits, hcycles, ?_⟩
  · obtain ⟨outcome, hr, ho⟩ := (Option.any_eq_true _ _).1 hcut
    cases outcome with
    | error reason => cases ho
    | ok result =>
        simp only [Except.toOption, Option.any_some] at ho
        obtain ⟨report, he, hb⟩ := (Option.any_eq_true _ _).1 ho
        intro j
        exact ((run_resumed_by_steps hs hp (some 3) 0).1 result report 3 hr he
          (of_decide_eq_true hb) j).1
  · obtain ⟨n, hcount, hj⟩ := (run_resumed_by_steps hs hp none 20).2 hwaits ["2"]
    obtain rfl : n = 4 := Int.ofNat.inj (hcount.symm.trans hcycles)
    intro j
    exact (hj j).1

end Machine

end RegisterMachine
