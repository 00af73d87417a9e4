import RegisterMachine.Proofs.Instruction.Agreement
import RegisterMachine.Proofs.Machine.Limits

/-!
# What a run depends on

A run looks at the program and its file, at the registers, at memory, at the lines that wait to be
read and at the limit in effect. Whatever else earlier steps and runs have left behind is
overwritten before it is read, and recording the instructions feeds back into nothing. No more is
asked of the machines here than that they have this much in common: the program need not come from
a source, nor the register file be complete.
-/

namespace RegisterMachine

def RunResult.untraced (result : RunResult) : RunResult :=
  { result with trace := #[] }

namespace Machine

/-! ## Machines in lockstep -/

/-- Two machines have gone the same way since they were started, and are now at the same point of
the same program. They may differ in what their consoles had shown at the start, in their limits,
and in whether they record the instructions. -/
structure Lockstep (start start' a b : Machine) : Prop where
  program_eq : a.program = b.program
  file_eq : a.file = b.file
  cpu_eq : a.cpu = b.cpu
  world : World.Agree start.console.shown start'.console.shown a.toWorld b.toWorld
  left_tracing : a.tracing = start.tracing
  right_tracing : b.tracing = start'.tracing
  trace_eq : start.tracing = start'.tracing → a.trace = b.trace

namespace Lockstep

variable {start start' a b : Machine} (h : Lockstep start start' a b)
include h

theorem isFinished_eq : a.isFinished = b.isFinished := by
  simp only [isFinished, h.program_eq, h.cpu_eq]

theorem siteOf_eq (instruction : Instruction) (index : Int) :
    a.siteOf instruction index = b.siteOf instruction index := by
  simp only [siteOf, h.file_eq]

theorem withWorld {world world' : World}
    (hw : World.Agree start.console.shown start'.console.shown world world') :
    Lockstep start start' { a with toWorld := world } { b with toWorld := world' } :=
  ⟨h.program_eq, h.file_eq, h.cpu_eq, hw, h.left_tracing, h.right_tracing, h.trace_eq⟩

theorem complete (entry : TraceEntry) :
    Lockstep start start' (a.complete entry) (b.complete entry) := by
  rw [complete_eq, complete_eq]
  refine ⟨h.program_eq, h.file_eq, rfl, h.world, h.left_tracing, h.right_tracing, ?_⟩
  intro ht
  simp only [h.left_tracing, h.right_tracing, ht, h.trace_eq ht]

/-- An instruction goes the same way in both machines, also if it leads to an invalid state. -/
theorem executeAt (program : Program) (cpu : Cpu) (instruction : Instruction) :
    (a.executeAt program cpu instruction).1 = (b.executeAt program cpu instruction).1 ∧
      Lockstep start start' (a.executeAt program cpu instruction).2
        (b.executeAt program cpu instruction).2 := by
  cases hx : Registry.standard.execute program.layout cpu (Decoded.ofText instruction.text)
      a.toWorld with
  | mk result world =>
      obtain ⟨world', hx', hw⟩ := Registry.execute_agree h.world rfl hx
      have hn := h.withWorld hw
      cases result with
      | error failure =>
          rw [executeAt_of_error hx, executeAt_of_error hx', h.siteOf_eq]
          exact ⟨rfl, hn⟩
      | ok next =>
          simp only [Machine.executeAt, hx, hx', h.siteOf_eq]
          split
          · exact ⟨rfl, hn.complete _⟩
          · exact ⟨rfl, hn⟩

theorem step : a.step.1 = b.step.1 ∧ Lockstep start start' a.step.2 b.step.2 := by
  unfold Machine.step
  rw [← h.program_eq, ← h.cpu_eq]
  split
  next program cpu _ _ =>
    split
    · exact ⟨rfl, h⟩
    · split
      next => exact ⟨rfl, h⟩
      next instruction _ =>
        obtain ⟨hr, hn⟩ := h.executeAt program cpu instruction
        -- The goal is about what is projected out of pairs; opening `executeAt` there is slow.
        generalize a.executeAt program cpu instruction = executed at hr hn ⊢
        generalize b.executeAt program cpu instruction = executed' at hr hn ⊢
        exact ⟨congrArg (Except.map some) hr, hn⟩
  next => exact ⟨rfl, h⟩

theorem iterate (budget : Nat) :
    (a.iterate budget).1 = (b.iterate budget).1 ∧
      Lockstep start start' (a.iterate budget).2 (b.iterate budget).2 := by
  induction budget generalizing a b with
  | zero =>
      have hf := h.isFinished_eq
      cases ha : a.isFinished with
      | true =>
          rw [iterate_of_isFinished ha, iterate_of_isFinished (hf.symm.trans ha)]
          exact ⟨rfl, h⟩
      | false =>
          rw [iterate_zero ha, iterate_zero (hf.symm.trans ha)]
          exact ⟨rfl, h⟩
  | succ budget ih =>
      have hf := h.isFinished_eq
      obtain ⟨hr, hn⟩ := h.step
      cases ha : a.isFinished with
      | true =>
          rw [iterate_of_isFinished ha, iterate_of_isFinished (hf.symm.trans ha)]
          exact ⟨rfl, h⟩
      | false =>
          cases hs : a.step with
          | mk result next =>
              cases hs' : b.step with
              | mk result' next' =>
                  rw [hs, hs'] at hr hn
                  obtain rfl : result = result' := hr
                  cases result with
                  | ok entry =>
                      rw [iterate_succ_of_step_ok ha hs,
                        iterate_succ_of_step_ok (hf.symm.trans ha) hs']
                      exact ih hn
                  | error failure =>
                      rw [iterate_succ_of_step_error ha hs,
                        iterate_succ_of_step_error (hf.symm.trans ha) hs']
                      exact ⟨rfl, hn⟩

/-! ## Results -/

theorem resultWith (ok : Bool) (error : Option Report) :
    (a.resultWith ok error).untraced = (b.resultWith ok error).untraced := by
  simp only [Machine.resultWith, RunResult.untraced, cycles, h.cpu_eq]

theorem limitReport (limit : Int) : a.limitReport limit = b.limitReport limit := by
  simp only [Machine.limitReport, h.cpu_eq, h.program_eq, h.siteOf_eq]

theorem limitFailure (limit : Int) : a.limitFailure limit = b.limitFailure limit := by
  simp only [Machine.limitFailure, h.limitReport]

theorem resultOfFailure (failure : Failure Report) :
    (a.resultOfFailure failure).map RunResult.untraced =
      (b.resultOfFailure failure).map RunResult.untraced := by
  cases failure with
  | fault report => simp only [Machine.resultOfFailure, Except.map, h.resultWith]
  | crash reason => rfl

theorem resultOf (limit : Option Int) (ending : Ending) :
    (a.resultOf limit ending).map (Except.map RunResult.untraced) =
      (b.resultOf limit ending).map (Except.map RunResult.untraced) := by
  cases ending with
  | finished => simp only [Machine.resultOf, Option.map_some, Except.map, h.resultWith]
  | failed failure => simp only [Machine.resultOf, Option.map_some, h.resultOfFailure]
  | exhausted =>
      cases limit with
      | none => rfl
      | some bound =>
          simp only [Machine.resultOf, Option.map_some, h.limitFailure, h.resultOfFailure]

theorem resultOf_eq (ht : start.tracing = start'.tracing) (limit : Option Int) (ending : Ending) :
    a.resultOf limit ending = b.resultOf limit ending := by
  have hr (ok : Bool) (error : Option Report) : a.resultWith ok error = b.resultWith ok error := by
    simp only [Machine.resultWith, cycles, h.cpu_eq, h.trace_eq ht]
  have hf (failure : Failure Report) : a.resultOfFailure failure = b.resultOfFailure failure := by
    cases failure <;> simp only [Machine.resultOfFailure, hr]
  cases ending with
  | finished => simp only [Machine.resultOf, hr]
  | failed failure => simp only [Machine.resultOf, hf]
  | exhausted => simp only [Machine.resultOf, hf, h.limitFailure]

end Lockstep

/-! ## Runs -/

/-- Two machines have in common all that a run depends on. Where there is no program, there is no
processor either. -/
structure SameStart (a b : Machine) : Prop where
  program_eq : a.program = b.program
  file_eq : a.file = b.file
  registers_eq : a.cpu.map Cpu.registers = b.cpu.map Cpu.registers
  memory_eq : a.memory = b.memory
  pending_eq : a.console.pending = b.console.pending
  cpu_of_none : a.program = none → a.cpu = none

/-- Two runs of machines that started in two states cannot be told apart, but for their traces if
only one of them is traced. -/
structure RunsAlike (a b : Machine) (ran ran' : Option (Except Crash RunResult) × Machine) :
    Prop where
  outcome : ran.1.map (Except.map RunResult.untraced) = ran'.1.map (Except.map RunResult.untraced)
  cpu : ran.2.cpu = ran'.2.cpu
  memory : ran.2.memory = ran'.2.memory
  pending : ran.2.console.pending = ran'.2.console.pending
  outputs : ∃ lines, ran.2.console.outputs = a.console.outputs ++ lines ∧
    ran'.2.console.outputs = b.console.outputs ++ lines
  prompts : ∃ lines, ran.2.console.prompts = a.console.prompts ++ lines ∧
    ran'.2.console.prompts = b.console.prompts ++ lines
  traced : a.tracing = b.tracing → ran.1 = ran'.1

/-- The start of a run makes machines the same that have the same registers. -/
theorem SameStart.restart {a b : Machine} (h : SameStart a b) :
    Lockstep a b a.restart b.restart where
  program_eq := h.program_eq
  file_eq := h.file_eq
  cpu_eq := by
    have hr := congrArg (Option.map fun registers => ({ registers } : Cpu)) h.registers_eq
    simp only [Option.map_map] at hr
    exact hr
  world := ⟨h.memory_eq, h.pending_eq, #[], Array.append_empty.symm, Array.append_empty.symm⟩
  left_tracing := rfl
  right_tracing := rfl
  trace_eq _ := rfl

theorem Lockstep.runsAlike {a b s s' : Machine} (h : Lockstep a b s s') (limit : Option Int)
    (ending : Ending) :
    RunsAlike a b (s.resultOf limit ending, s) (s'.resultOf limit ending, s') where
  outcome := h.resultOf limit ending
  cpu := h.cpu_eq
  memory := h.world.memory_eq
  pending := h.world.pending_eq
  outputs := h.world.added_lines Shown.output?
  prompts := h.world.added_lines Shown.prompt?
  traced ht := h.resultOf_eq ht limit ending

theorem run_of_no_cpu {m : Machine} (hc : m.cpu = none) (limit : Option Int) (budget : Nat) :
    m.run limit budget =
      (some (.ok { ok := false, error := some { fault := .notLoaded } }), m) := by
  simp only [run, hc, Option.isSome_none, Bool.and_false]
  rfl

theorem SameStart.runsAlike_of_no_cpu {a b : Machine} (h : SameStart a b) (hc : a.cpu = none)
    (limit limit' : Option Int) (budget : Nat) :
    RunsAlike a b (a.run limit budget) (b.run limit' budget) := by
  have hr := h.registers_eq
  rw [hc, Option.map_none] at hr
  have hc' : b.cpu = none := Option.map_eq_none_iff.1 hr.symm
  rw [run_of_no_cpu hc, run_of_no_cpu hc']
  exact
    { outcome := rfl
      cpu := hc.trans hc'.symm
      memory := h.memory_eq
      pending := h.pending_eq
      outputs := ⟨[], (List.append_nil _).symm, (List.append_nil _).symm⟩
      prompts := ⟨[], (List.append_nil _).symm, (List.append_nil _).symm⟩
      traced := fun _ => rfl }

/-- The runs of loaded machines that have the same start end in the same way, and in lockstep. -/
theorem SameStart.lockstep_of_run {a b : Machine} (h : SameStart a b) {program : Program}
    {cpu : Cpu} (hp : a.program = some program) (hc : a.cpu = some cpu) {limit limit' : Option Int}
    (hl : limit.or a.limit = limit'.or b.limit) (budget : Nat) :
    ∃ ending s s', Lockstep a b s s' ∧
      a.run limit budget = (s.resultOf (limit.or a.limit) ending, s) ∧
      b.run limit' budget = (s'.resultOf (limit.or a.limit) ending, s') := by
  have hr := h.registers_eq
  rw [hc, Option.map_some] at hr
  obtain ⟨cpu', hc', -⟩ := Option.map_eq_some_iff.1 hr.symm
  have hallowance : b.allowance limit' budget = a.allowance limit budget := by
    simp only [allowance, hl]
  obtain ⟨he, hn⟩ := h.restart.iterate (a.allowance limit budget)
  cases hi : a.restart.iterate (a.allowance limit budget) with
  | mk ending s =>
      cases hi' : b.restart.iterate (a.allowance limit budget) with
      | mk ending' s' =>
          rw [hi, hi'] at he hn
          obtain rfl : ending = ending' := he
          rw [← hallowance] at hi'
          refine ⟨ending, s, s', hn, run_of_iterate hp hc hi, ?_⟩
          rw [run_of_iterate (h.program_eq ▸ hp) hc' hi', ← hl]

/-- A run depends on nothing but the program, its file, the registers, memory, the lines to read and
the limit in effect. Machines that have these in common run alike, whatever program counter,
comparison, cycle count and trace earlier steps and runs have left in them, and whether or not they
are traced: neither run has a result, both crash for the same reason, or both have the same result,
with the same trace if both are traced or neither is. They leave the same processor and the same
memory, and have shown the same outputs and prompts. -/
theorem run_of_same_start {a b : Machine} (h : SameStart a b) {limit limit' : Option Int}
    (hl : limit.or a.limit = limit'.or b.limit) (budget : Nat) :
    RunsAlike a b (a.run limit budget) (b.run limit' budget) := by
  cases hc : a.cpu with
  | none => exact h.runsAlike_of_no_cpu hc limit limit' budget
  | some cpu =>
      cases hp : a.program with
      | none =>
          rw [h.cpu_of_none hp] at hc
          cases hc
      | some program =>
          obtain ⟨ending, s, s', hn, ha, hb⟩ := h.lockstep_of_run hp hc hl budget
          rw [ha, hb]
          exact hn.runsAlike _ ending

/-- A machine that is about to finish, with a comparison, cycles and a trace from before, runs like
one that is newly loaded: it reads its input and then has no comparison for its branch. -/
theorem run_of_same_start_leftovers :
    let branch : Instruction := { text := "BEQ end", line := 3 }
    let program : Program :=
      { instructions := #[{ text := "IN R1", line := 1 }, { text := "OUT R1", line := 2 }, branch]
        labels := { entries := [("end", 3)] } }
    let a : Machine :=
      { memory := .zeroed 4 (by decide) (by decide), console := { pending := ["7"] }
        program := some program, cpu := some {}, limit := some 9 }
    let left : Cpu := { pc := 2, flag := { enabled := true, left := 4, right := 4 }, cycles := 5 }
    let b : Machine :=
      { a with
        console := { pending := ["7"], shown := #[.output "4"] }
        cpu := some left
        trace := #[{ instruction := branch, decoded := .ofText branch.text, before := left,
                     after := left }]
        tracing := true
        limit := none }
    let ran := a.run none 0
    let ran' := b.run (some 9) 0
    SameStart a b ∧ RunsAlike a b ran ran' ∧
      ran.1.map (Except.map RunResult.traceback) =
        some (.ok ("Traceback:\n> File \"<string>\", line 3\nRuntimeError: " ++
          "Cannot BEQ without a preceding CMP instruction.")) ∧
      ran.2.console.outputs = ["7"] ∧ ran'.2.console.outputs = ["4", "7"] := by
  intro branch program a left b ran ran'
  have hs : SameStart a b := ⟨rfl, rfl, rfl, rfl, rfl, nofun⟩
  refine ⟨hs, run_of_same_start hs rfl 0, ?_, ?_, ?_⟩
  · decide +kernel
  · decide +kernel
  · decide +kernel

end Machine

end RegisterMachine
