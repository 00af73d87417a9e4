import RegisterMachine.Proofs.Instruction.Soundness
import RegisterMachine.Proofs.Machine.Steps
import RegisterMachine.Proofs.Program.WellFormed

/-!
# Consistent machines

The invariant of a machine whose program was read from a source. Every way of stepping and running
keeps it, whether it fails or not, and in a consistent machine an instruction has no failures but
its own.
-/

namespace RegisterMachine

/-! ## Failures of a machine -/

def Failure.OfStep : Failure Report → Prop
  | .fault report => report.fault.OfInstruction
  | .crash reason => ∃ error, reason = .numeral error

theorem Failure.ofStep_map {failure : Failure Fault} (h : failure.OfInstruction)
    (site : Option Site) : (failure.map fun fault => { fault, site }).OfStep := by
  cases failure with
  | fault report => exact h
  | crash reason => exact h

/-- The faults that a run of a loaded machine can report: those of its instructions, and that its
limit is reached. -/
def Fault.OfRun (limit : Option Int) (fault : Fault) : Prop :=
  fault.OfInstruction ∨ ∃ bound, limit = some bound ∧ fault = .cycleLimit bound

/-- The crashes that a run of a loaded machine can have: over a numeral that denotes no number, and
over a limit that is reached but cannot be written. -/
def Crash.OfRun (limit : Option Int) (reason : Crash) : Prop :=
  (∃ error, reason = .numeral error) ∨
    reason = .unwritable ∧ ∃ bound, limit = some bound ∧ Text.isWritable bound = false

/-- A result of a run under a limit that reports nothing but what such a run can report, or one of
its crashes. -/
def RunOutcome (limit : Option Int) : Except Crash RunResult → Prop :=
  Yields (fun result => ∀ report, result.error = some report → report.fault.OfRun limit)
    (Crash.OfRun limit)

theorem Program.WellFormed.bounded {program : Program} (h : program.WellFormed) :
    program.layout.Bounded :=
  fun _ _ ht => h.target_bounds ht

namespace Machine

structure At (m : Machine) (program : Program) (cpu : Cpu) (instruction : Instruction)
    (mnemonic : Mnemonic) : Prop where
  program_eq : m.program = some program
  cpu_eq : m.cpu = some cpu
  pc_lt : cpu.pc < program.length
  fetch : program.fetch cpu.pc = .ok instruction
  current : m.current? = some instruction
  mnemonic_eq : (Decoded.ofText instruction.text).mnemonic = mnemonic.name

namespace At

variable {m : Machine} {program : Program} {cpu : Cpu} {instruction : Instruction}
  {mnemonic : Mnemonic} (h : m.At program cpu instruction mnemonic)
include h

theorem isFinished : m.isFinished = false := by
  rw [isFinished_of_loaded h.program_eq h.cpu_eq]
  exact decide_eq_false (Int.not_le.2 h.pc_lt)

theorem step :
    m.step =
      ((m.executeAt program cpu instruction).1.map some,
        (m.executeAt program cpu instruction).2) :=
  step_of_fetch h.program_eq h.cpu_eq h.pc_lt h.fetch

end At

structure Consistent (m : Machine) (size : Int) : Prop where
  size_eq : m.memory.size = size
  memory : m.memory.HoldsWords
  program_none_iff : m.program = none ↔ m.cpu = none
  trace_of_none : m.program = none → m.trace = #[]
  wellFormed : ∀ program, m.program = some program → program.WellFormed
  fits : ∀ program cpu, m.program = some program → m.cpu = some cpu → cpu.Fits program.length

theorem consistent_of_loaded {m : Machine} {size : Int} {program : Program} {cpu : Cpu}
    (hs : m.memory.size = size) (hm : m.memory.HoldsWords) (hp : m.program = some program)
    (hc : m.cpu = some cpu) (hw : program.WellFormed) (hf : cpu.Fits program.length) :
    m.Consistent size where
  size_eq := hs
  memory := hm
  program_none_iff := by rw [hp, hc]; exact ⟨nofun, nofun⟩
  trace_of_none h := by rw [hp] at h; cases h
  wellFormed p h := by
    rw [hp] at h
    cases h
    exact hw
  fits p c h h' := by
    rw [hp] at h
    rw [hc] at h'
    cases h
    cases h'
    exact hf

theorem consistent_of_not_loaded {m : Machine} {size : Int} (hs : m.memory.size = size)
    (hm : m.memory.HoldsWords) (hp : m.program = none) (hc : m.cpu = none) (ht : m.trace = #[]) :
    m.Consistent size where
  size_eq := hs
  memory := hm
  program_none_iff := iff_of_true hp hc
  trace_of_none _ := ht
  wellFormed p h := by rw [hp] at h; cases h
  fits p c h := by rw [hp] at h; cases h

namespace Consistent

variable {m : Machine} {size : Int} (h : m.Consistent size)
include h

theorem loaded {program : Program} (hp : m.program = some program) :
    ∃ cpu, m.cpu = some cpu ∧ program.WellFormed ∧ cpu.Fits program.length := by
  cases hc : m.cpu with
  | none =>
      have := h.program_none_iff.2 hc
      rw [hp] at this
      cases this
  | some cpu => exact ⟨cpu, rfl, h.wellFormed program hp, h.fits program cpu hp hc⟩

theorem not_loaded (hp : m.program = none) : m.cpu = none ∧ m.trace = #[] :=
  ⟨h.program_none_iff.1 hp, h.trace_of_none hp⟩

theorem exists_at {program : Program} {cpu : Cpu} (hp : m.program = some program)
    (hc : m.cpu = some cpu) {instruction : Instruction}
    (hi : program.fetch? cpu.pc = some instruction) :
    ∃ mnemonic, m.At program cpu instruction mnemonic := by
  have hf : cpu.Fits program.length := h.fits program cpu hp hc
  have hlt : cpu.pc < program.length := Program.lt_length_of_fetch? hf.pc_nonneg hi
  obtain ⟨mnemonic, hm⟩ :=
    (h.wellFormed program hp).dispatchable instruction (Program.mem_of_fetch? hi)
  have hcur : m.current? = some instruction := (current?_of_loaded hp hc).trans hi
  exact ⟨mnemonic, hp, hc, hlt, Program.fetch_of_fetch? hi, hcur, hm⟩

/-- There is nothing left to execute, or there is an instruction and it can be dispatched on. -/
theorem finished_or_at :
    (m.isFinished = true ∧ m.current? = none) ∨
      ∃ program cpu instruction mnemonic, m.At program cpu instruction mnemonic := by
  cases hp : m.program with
  | none => exact .inl ⟨isFinished_of_not_loaded hp, current?_of_not_loaded hp⟩
  | some program =>
      obtain ⟨cpu, hc, hw, hf⟩ := h.loaded hp
      cases hi : program.fetch? cpu.pc with
      | some instruction =>
          obtain ⟨mnemonic, ha⟩ := h.exists_at hp hc hi
          exact .inr ⟨program, cpu, instruction, mnemonic, ha⟩
      | none =>
          refine .inl ⟨?_, (current?_of_loaded hp hc).trans hi⟩
          rw [isFinished_of_loaded hp hc]
          refine decide_eq_true (Int.not_lt.1 ?_)
          intro hlt
          obtain ⟨instruction, hs⟩ := Program.exists_fetch? hf.pc_nonneg hlt
          rw [hi] at hs
          cases hs

/-! ## Stepping -/

section
variable {program : Program} {cpu : Cpu} {instruction : Instruction} {mnemonic : Mnemonic}
  (ha : m.At program cpu instruction mnemonic)
include ha

theorem executed :
    Executed (·.Fits program.length) m.toWorld
      (Registry.standard.execute program.layout cpu (Decoded.ofText instruction.text)
        m.toWorld) := by
  have hw : program.WellFormed := h.wellFormed program ha.program_eq
  have hf : cpu.Fits program.layout.length := h.fits program cpu ha.program_eq ha.cpu_eq
  exact Registry.execute_spec hf ha.pc_lt hw.bounded h.memory ha.mnemonic_eq

/-- The two ways in which an instruction can go. That it leads to an invalid state is none. -/
theorem executeAt_cases :
    (∃ failure world,
      Registry.standard.execute program.layout cpu (Decoded.ofText instruction.text) m.toWorld =
        (.error failure, world) ∧
      m.executeAt program cpu instruction =
        (.error (failure.map fun fault => { fault, site := some (m.siteOf instruction cpu.pc) }),
          { m with toWorld := world })) ∨
    (∃ next world,
      Registry.standard.execute program.layout cpu (Decoded.ofText instruction.text) m.toWorld =
        (.ok next, world) ∧
      m.executeAt program cpu instruction =
        (.ok
          { instruction, decoded := Decoded.ofText instruction.text, before := cpu, after := next },
          { m with toWorld := world }.complete
            { instruction, decoded := Decoded.ofText instruction.text, before := cpu,
              after := next })) := by
  have hx := h.executed ha
  cases hr : Registry.standard.execute program.layout cpu (Decoded.ofText instruction.text)
      m.toWorld with
  | mk result world =>
      rw [hr] at hx
      cases result with
      | error failure => exact .inl ⟨failure, world, rfl, executeAt_of_error hr⟩
      | ok next =>
          have hn : next.Fits program.length := hx.yields
          exact .inr ⟨next, world, rfl, executeAt_of_ok hr hn.isValid⟩

theorem executeAt :
    (m.executeAt program cpu instruction).2.Consistent size ∧
      Yields (fun _ => True) Failure.OfStep (m.executeAt program cpu instruction).1 := by
  have hp := ha.program_eq
  have hc := ha.cpu_eq
  have hw : program.WellFormed := h.wellFormed program hp
  have hx := h.executed ha
  have hs := (congrArg Nat.cast hx.size_eq).trans h.size_eq
  rcases h.executeAt_cases ha with ⟨failure, world, hr, he⟩ | ⟨next, world, hr, he⟩
  · rw [hr] at hx hs
    rw [he]
    have hf : cpu.Fits program.length := h.fits program cpu hp hc
    exact ⟨consistent_of_loaded hs hx.memory hp hc hw hf, Failure.ofStep_map hx.yields _⟩
  · rw [hr] at hx hs
    rw [he, complete_eq]
    exact ⟨consistent_of_loaded hs hx.memory hp rfl hw hx.yields, trivial⟩

end

theorem step :
    m.step.2.Consistent size ∧
      (m.program ≠ none → Yields (fun _ => True) Failure.OfStep m.step.1) := by
  rcases h.finished_or_at with ⟨hf, -⟩ | ⟨program, cpu, instruction, mnemonic, ha⟩
  · cases hp : m.program with
    | none =>
        rw [step_of_not_loaded hp]
        exact ⟨h, fun hn => (hn rfl).elim⟩
    | some program =>
        obtain ⟨cpu, hc, -, -⟩ := h.loaded hp
        rw [isFinished_of_loaded hp hc] at hf
        rw [step_of_end hp hc (of_decide_eq_true hf)]
        exact ⟨h, fun _ => trivial⟩
  · obtain ⟨hn, hy⟩ := h.executeAt ha
    rw [ha.step]
    -- The goal is about what is projected out of a pair; opening `executeAt` there is slow.
    generalize m.executeAt program cpu instruction = executed at hn hy ⊢
    exact ⟨hn, fun _ => hy.map fun _ _ => trivial⟩

/-! ## Running -/

theorem restart : m.restart.Consistent size := by
  cases hp : m.program with
  | none =>
      obtain ⟨hc, -⟩ := h.not_loaded hp
      refine consistent_of_not_loaded h.size_eq h.memory hp ?_ rfl
      simp only [Machine.restart, hc, Option.map_none]
  | some program =>
      obtain ⟨cpu, hc, hw, hf⟩ := h.loaded hp
      refine consistent_of_loaded h.size_eq h.memory hp ?_ hw hf.restart
      simp only [Machine.restart, hc, Option.map_some]

end Consistent

def EndingOutcome : Ending → Prop
  | .failed failure => failure.OfStep
  | .finished | .exhausted => True

theorem program_ne_none {m : Machine} (h : m.isFinished = false) : m.program ≠ none := by
  intro hp
  rw [isFinished_of_not_loaded hp] at h
  cases h

theorem Consistent.iterate {m : Machine} {size : Int} (h : m.Consistent size) (budget : Nat) :
    (m.iterate budget).2.Consistent size ∧ EndingOutcome (m.iterate budget).1 := by
  induction budget generalizing m with
  | zero =>
      cases hf : m.isFinished with
      | true =>
          rw [iterate_of_isFinished hf]
          exact ⟨h, trivial⟩
      | false =>
          rw [iterate_zero hf]
          exact ⟨h, trivial⟩
  | succ budget ih =>
      cases hf : m.isFinished with
      | true =>
          rw [iterate_of_isFinished hf]
          exact ⟨h, trivial⟩
      | false =>
          obtain ⟨hn, hy⟩ := h.step
          cases hs : m.step with
          | mk result next =>
              rw [hs] at hn hy
              cases result with
              | ok entry =>
                  rw [iterate_succ_of_step_ok hf hs]
                  exact ih hn
              | error failure =>
                  rw [iterate_succ_of_step_error hf hs]
                  exact ⟨hn, hy (program_ne_none hf)⟩

theorem runOutcome_resultOfFailure (m : Machine) {failure : Failure Report}
    (h : failure.OfStep) (limit : Option Int) : RunOutcome limit (m.resultOfFailure failure) := by
  cases failure with
  | crash reason => exact .inl h
  | fault report =>
      intro reported hr
      cases hr
      exact .inl h

theorem runOutcome_limitFailure (m : Machine) (limit : Int) :
    RunOutcome (some limit) (m.resultOfFailure (m.limitFailure limit)) := by
  cases hw : Text.isWritable limit with
  | true =>
      rw [limitFailure_of_writable hw]
      intro reported hr
      cases hr
      exact .inr ⟨limit, rfl, rfl⟩
  | false =>
      rw [limitFailure_of_not_writable hw]
      exact .inr ⟨rfl, limit, rfl, hw⟩

section
variable {m : Machine} {size : Int} (h : m.Consistent size)
include h

theorem Consistent.runWithin (limit : Int) :
    (m.runWithin limit).2.Consistent size ∧ RunOutcome (some limit) (m.runWithin limit).1 := by
  obtain ⟨hn, he⟩ := h.restart.iterate limit.toNat
  refine ⟨hn, ?_⟩
  unfold Machine.runWithin
  cases hi : m.restart.iterate limit.toNat with
  | mk ending next =>
      rw [hi] at he
      cases ending with
      | finished => exact fun report hr => nomatch hr
      | failed failure => exact runOutcome_resultOfFailure next he (some limit)
      | exhausted => exact runOutcome_limitFailure next limit

theorem Consistent.runFreely (budget : Nat) :
    (m.runFreely budget).2.Consistent size ∧
      ∀ outcome, (m.runFreely budget).1 = some outcome → RunOutcome none outcome := by
  obtain ⟨hn, he⟩ := h.restart.iterate budget
  refine ⟨hn, ?_⟩
  unfold Machine.runFreely
  cases hi : m.restart.iterate budget with
  | mk ending next =>
      rw [hi] at he
      intro outcome ho
      cases ending with
      | finished =>
          cases ho
          exact fun report hr => nomatch hr
      | failed failure =>
          cases ho
          exact runOutcome_resultOfFailure next he none
      | exhausted => cases ho

theorem Consistent.run (limit : Option Int) (budget : Nat) :
    (m.run limit budget).2.Consistent size ∧
      (m.program ≠ none →
        ∀ outcome, (m.run limit budget).1 = some outcome →
          RunOutcome (limit.or m.limit) outcome) := by
  cases hp : m.program with
  | none =>
      rw [run_of_not_loaded hp]
      exact ⟨h, fun hn => (hn rfl).elim⟩
  | some program =>
      obtain ⟨cpu, hc, -, -⟩ := h.loaded hp
      cases hl : limit.or m.limit with
      | none =>
          rw [run_of_no_limit hp hc hl]
          exact ⟨(h.runFreely budget).1, fun _ => (h.runFreely budget).2⟩
      | some bound =>
          rw [run_of_limit hp hc hl]
          refine ⟨(h.runWithin bound).1, fun _ outcome ho => ?_⟩
          cases ho
          exact (h.runWithin bound).2

end

end Machine

end RegisterMachine
