import RegisterMachine.Proofs.Machine.Locations
import RegisterMachine.Proofs.Program.Layout

/-!
# Machines that agree

What a machine does is decided by the code of its program, its processor, its memory and the lines
that wait to be read. Two machines that agree on these go on in step: both are finished, both
complete an instruction, or both fail for the same reason, and they agree again afterwards. What
may differ is their guise: how the program is written and where it comes from, what the console has
shown before, and whether the instructions are recorded.
-/

namespace RegisterMachine

/-- What can tell two machines apart that do the same. Of trace and console it is what they held
before. -/
structure Guise where
  program : Program
  file : String
  tracing : Bool
  trace : Array TraceEntry
  shown : Array Shown

namespace Guise

def report (g : Guise) (index : Int) (fault : Fault) : Report :=
  { fault, site := (g.program.fetch? index).map (Machine.placeIn g.file index) }

/-- The record of the instruction that has led from one state to another. -/
def record? (g : Guise) (before after : Cpu) : Option TraceEntry :=
  (g.program.fetch? before.pc).map fun instruction =>
    { instruction, decoded := Decoded.ofText instruction.text, before, after }

section
variable {g : Guise} {instruction : Instruction}

theorem report_eq {index : Int} (h : g.program.fetch? index = some instruction) :
    g.report index =
      fun fault => { fault, site := some (Machine.placeIn g.file index instruction) } := by
  funext fault
  simp only [report, h, Option.map_some]

theorem record?_eq {before : Cpu} (h : g.program.fetch? before.pc = some instruction)
    (after : Cpu) :
    g.record? before after =
      some { instruction, decoded := Decoded.ofText instruction.text, before, after } := by
  simp only [record?, h, Option.map_some]

end

end Guise

namespace Machine

def guise (m : Machine) (program : Program) : Guise :=
  { program
    file := m.file
    tracing := m.tracing
    trace := m.trace
    shown := m.console.shown }

structure Wears (m : Machine) (g : Guise) : Prop where
  program_eq : m.program = some g.program
  file_eq : m.file = g.file
  tracing_eq : m.tracing = g.tracing

/-- The same has been added to two traces, if both machines record instructions or neither does. -/
def TracesAgree (g g' : Guise) (trace trace' : Array TraceEntry) : Prop :=
  g.tracing = g'.tracing → ∃ states : List (Cpu × Cpu),
    trace.toList.map some =
      g.trace.toList.map some ++ states.map (fun state => g.record? state.1 state.2) ∧
    trace'.toList.map some =
      g'.trace.toList.map some ++ states.map (fun state => g'.record? state.1 state.2)

/-- Two machines are the same but for their guises. -/
structure Agree (g g' : Guise) (a b : Machine) : Prop where
  consistent : ∃ size, a.Consistent size
  left : a.Wears g
  right : b.Wears g'
  code_eq : g.program.code = g'.program.code
  cpu_eq : a.cpu = b.cpu
  world : World.Agree g.shown g'.shown a.toWorld b.toWorld
  trace : TracesAgree g g' a.trace b.trace

inductive StepsAgree (g g' : Guise) (a b : Machine) : Prop
  | finished (hf : a.isFinished = true) (hf' : b.isFinished = true)
      (hs : a.step = (.ok none, a)) (hs' : b.step = (.ok none, b))
  | completed (hf : a.isFinished = false) (hf' : b.isFinished = false) {before after : Cpu}
      {entry entry' : TraceEntry} {next next' : Machine}
      (hs : a.step = (.ok (some entry), next)) (hs' : b.step = (.ok (some entry'), next'))
      (he : g.record? before after = some entry) (he' : g'.record? before after = some entry')
      (hn : Agree g g' next next')
  | failed (hf : a.isFinished = false) (hf' : b.isFinished = false) {cpu : Cpu}
      {reason : Failure Fault} {next next' : Machine}
      (hs : a.step = (.error (reason.map (g.report cpu.pc)), next))
      (hs' : b.step = (.error (reason.map (g'.report cpu.pc)), next'))
      (hc : next.cpu = some cpu) (hn : Agree g g' next next')

inductive EndingsAgree (g g' : Guise) (pc : Int) : Ending → Ending → Prop
  | finished : EndingsAgree g g' pc .finished .finished
  | exhausted : EndingsAgree g g' pc .exhausted .exhausted
  | failed (reason : Failure Fault) :
      EndingsAgree g g' pc (.failed (reason.map (g.report pc)))
        (.failed (reason.map (g'.report pc)))

structure ResultsAgree (g g' : Guise) (result result' : RunResult) : Prop where
  ok_eq : result.ok = result'.ok
  cycles_eq : result.cycles = result'.cycles
  pc_eq : result.pc = result'.pc
  error : ∃ fault : Option Fault, result.error = fault.map (g.report result.pc) ∧
    result'.error = fault.map (g'.report result.pc)
  trace : TracesAgree g g' result.trace result'.trace

inductive OutcomesAgree (g g' : Guise) :
    Option (Except Crash RunResult) → Option (Except Crash RunResult) → Prop
  | none : OutcomesAgree g g' none none
  | crash (reason : Crash) : OutcomesAgree g g' (some (.error reason)) (some (.error reason))
  | result {result result' : RunResult} (h : ResultsAgree g g' result result') :
      OutcomesAgree g g' (some (.ok result)) (some (.ok result'))

/-- Machines agree now if they have the same code and the same processor, memory and lines to
read. -/
theorem Consistent.agree {a b : Machine} {size : Int} (h : a.Consistent size)
    {program program' : Program} (hp : a.program = some program) (hp' : b.program = some program')
    (hcode : program.code = program'.code) (hc : a.cpu = b.cpu) (hm : a.memory = b.memory)
    (hq : a.console.pending = b.console.pending) :
    Agree (a.guise program) (b.guise program') a b where
  consistent := ⟨size, h⟩
  left := ⟨hp, rfl, rfl⟩
  right := ⟨hp', rfl, rfl⟩
  code_eq := hcode
  cpu_eq := hc
  world := ⟨hm, hq, #[], Array.append_empty.symm, Array.append_empty.symm⟩
  trace _ := ⟨[], (List.append_nil _).symm, (List.append_nil _).symm⟩

namespace Agree

variable {g g' : Guise} {a b : Machine} (h : Agree g g' a b)
include h

theorem isFinished_eq : a.isFinished = b.isFinished := by
  obtain ⟨size, hcons⟩ := h.consistent
  obtain ⟨cpu, hc, -, -⟩ := hcons.loaded h.left.program_eq
  rw [isFinished_of_loaded h.left.program_eq hc,
    isFinished_of_loaded h.right.program_eq (h.cpu_eq.symm.trans hc),
    Program.length_eq_of_code_eq h.code_eq]

/-- Where one machine is about to execute an instruction, the other one has an instruction with the
same tokens. -/
theorem counterpart {program : Program} {cpu : Cpu} {instruction : Instruction}
    {mnemonic : Mnemonic} (ha : a.At program cpu instruction mnemonic) :
    ∃ other : Instruction, instruction.tokens = other.tokens ∧ b.cpu = some cpu ∧
      cpu.pc < g'.program.length ∧ g'.program.fetch? cpu.pc = some other := by
  obtain rfl : program = g.program :=
    Option.some.inj (ha.program_eq.symm.trans h.left.program_eq)
  have hfetch : g.program.fetch? cpu.pc = some instruction := Program.fetch?_of_fetch ha.fetch
  rcases Program.fetch?_of_code_eq h.code_eq cpu.pc with ⟨hn, -⟩ | ⟨found, other, hf, hf', ht⟩
  · rw [hfetch] at hn
    cases hn
  · obtain rfl : instruction = found := Option.some.inj (hfetch.symm.trans hf)
    refine ⟨other, ht, h.cpu_eq.symm.trans ha.cpu_eq, ?_, hf'⟩
    rw [← Program.length_eq_of_code_eq h.code_eq]
    exact ha.pc_lt

section
variable {world world' : World} (hw : World.Agree g.shown g'.shown world world') {size : Int}
include hw

theorem withWorld (hc : ({ a with toWorld := world } : Machine).Consistent size) :
    Agree g g' { a with toWorld := world } { b with toWorld := world' } where
  consistent := ⟨size, hc⟩
  left := ⟨h.left.program_eq, h.left.file_eq, h.left.tracing_eq⟩
  right := ⟨h.right.program_eq, h.right.file_eq, h.right.tracing_eq⟩
  code_eq := h.code_eq
  cpu_eq := h.cpu_eq
  world := hw
  trace := h.trace

theorem complete {entry entry' : TraceEntry} (he : g.record? entry.before entry.after = some entry)
    (he' : g'.record? entry.before entry.after = some entry') (ha : entry'.after = entry.after)
    (hc : ({ a with toWorld := world }.complete entry).Consistent size) :
    Agree g g' ({ a with toWorld := world }.complete entry)
      ({ b with toWorld := world' }.complete entry') := by
  rw [complete_eq] at hc
  rw [complete_eq, complete_eq, ha]
  refine ⟨⟨size, hc⟩, ⟨h.left.program_eq, h.left.file_eq, h.left.tracing_eq⟩,
    ⟨h.right.program_eq, h.right.file_eq, h.right.tracing_eq⟩, h.code_eq, rfl, hw, ?_⟩
  intro ht
  obtain ⟨states, hs, hs'⟩ := h.trace ht
  have htracing : b.tracing = a.tracing :=
    h.right.tracing_eq.trans (ht.symm.trans h.left.tracing_eq.symm)
  simp only [htracing]
  cases a.tracing with
  | false => exact ⟨states, hs, hs'⟩
  | true =>
      refine ⟨states ++ [(entry.before, entry.after)], ?_, ?_⟩
      · simp [hs, he]
      · simp [hs', he']

end

theorem siteOf_left {index : Int} {instruction : Instruction} :
    a.siteOf instruction index = placeIn g.file index instruction := by
  rw [← h.left.file_eq]
  rfl

theorem siteOf_right {index : Int} {instruction : Instruction} :
    b.siteOf instruction index = placeIn g'.file index instruction := by
  rw [← h.right.file_eq]
  rfl

/-- Machines that agree take their steps alike. -/
theorem step : StepsAgree g g' a b := by
  obtain ⟨size, hcons⟩ := h.consistent
  rcases hcons.finished_or_at with ⟨hf, -⟩ | ⟨program, cpu, instruction, mnemonic, ha⟩
  · obtain ⟨cpu, hc, -, -⟩ := hcons.loaded h.left.program_eq
    have hf' : b.isFinished = true := h.isFinished_eq ▸ hf
    have hc' : b.cpu = some cpu := h.cpu_eq ▸ hc
    have hl := isFinished_of_loaded h.left.program_eq hc
    have hl' := isFinished_of_loaded h.right.program_eq hc'
    exact .finished hf hf'
      (step_of_end h.left.program_eq hc (of_decide_eq_true (hl.symm.trans hf)))
      (step_of_end h.right.program_eq hc' (of_decide_eq_true (hl'.symm.trans hf')))
  · obtain ⟨other, htokens, hc', hlt', hfetch'⟩ := h.counterpart ha
    obtain rfl : program = g.program :=
      Option.some.inj (ha.program_eq.symm.trans h.left.program_eq)
    have hfetch : g.program.fetch? cpu.pc = some instruction := Program.fetch?_of_fetch ha.fetch
    have hf' : b.isFinished = false := h.isFinished_eq ▸ ha.isFinished
    have hs := ha.step
    have hs' := step_of_fetch h.right.program_eq hc' hlt' (Program.fetch_of_fetch? hfetch')
    rcases hcons.executeAt_cases ha with ⟨reason, world, hx, he⟩ | ⟨after, world, hx, he⟩
    · obtain ⟨world', hx', hw⟩ := Registry.execute_agree h.world htokens hx
      rw [Program.layout_eq_of_code_eq h.code_eq] at hx'
      rw [he, h.siteOf_left, ← Guise.report_eq hfetch] at hs
      rw [executeAt_of_error hx', h.siteOf_right, ← Guise.report_eq hfetch'] at hs'
      exact .failed ha.isFinished hf' hs hs' ha.cpu_eq (h.withWorld hw (hcons.of_step hs))
    · -- The state after the instruction is the same, so it is valid in the other program as well.
      obtain ⟨world', hx', hw⟩ := Registry.execute_agree h.world htokens hx
      obtain ⟨-, -, hvalid, -, -⟩ := executeAt_eq_ok he
      rw [Program.layout_eq_of_code_eq h.code_eq] at hx'
      rw [Program.length_eq_of_code_eq h.code_eq] at hvalid
      rw [he] at hs
      rw [executeAt_of_ok hx' hvalid] at hs'
      have hentry := Guise.record?_eq hfetch after
      have hentry' := Guise.record?_eq hfetch' after
      exact .completed ha.isFinished hf' hs hs' hentry hentry'
        (h.complete hw hentry hentry' rfl (hcons.of_step hs))

/-! ## Stepping on -/

/-- Machines that agree can take equally many steps, and agree after each of them. -/
theorem nth? (k : Nat) : Option.Rel (Agree g g') (a.nth? k) (b.nth? k) := by
  induction k generalizing a b with
  | zero => exact .some h
  | succ k ih =>
      cases h.step with
      | finished hf hf' hs hs' =>
          rw [nth?_succ_of_isFinished hf, nth?_succ_of_isFinished hf']
          exact .none
      | completed hf hf' hs hs' he he' hn =>
          rw [nth?_succ_of_step_ok hf hs, nth?_succ_of_step_ok hf' hs']
          exact ih hn
      | failed hf hf' hs hs' hc hn =>
          rw [nth?_succ_of_step_error hf hs, nth?_succ_of_step_error hf' hs']
          exact .none

/-- Machines that agree end their iterations alike, and agree at the end. -/
theorem iterate (budget : Nat) :
    Agree g g' (a.iterate budget).2 (b.iterate budget).2 ∧
      ∃ cpu, (a.iterate budget).2.cpu = some cpu ∧
        EndingsAgree g g' cpu.pc (a.iterate budget).1 (b.iterate budget).1 := by
  obtain ⟨size, hcons⟩ := h.consistent
  obtain ⟨cpu, hc, -, -⟩ := hcons.loaded h.left.program_eq
  induction budget generalizing a b cpu with
  | zero =>
      cases hf : a.isFinished with
      | true =>
          rw [iterate_of_isFinished hf, iterate_of_isFinished (h.isFinished_eq ▸ hf)]
          exact ⟨h, cpu, hc, .finished⟩
      | false =>
          rw [iterate_zero hf, iterate_zero (h.isFinished_eq ▸ hf)]
          exact ⟨h, cpu, hc, .exhausted⟩
  | succ budget ih =>
      cases h.step with
      | finished hf hf' hs hs' =>
          rw [iterate_of_isFinished hf, iterate_of_isFinished hf']
          exact ⟨h, cpu, hc, .finished⟩
      | completed hf hf' hs hs' he he' hn =>
          rw [iterate_succ_of_step_ok hf hs, iterate_succ_of_step_ok hf' hs']
          have hnext := hcons.of_step hs
          obtain ⟨reached, hreached, -, -⟩ := hnext.loaded hn.left.program_eq
          exact ih hn hnext reached hreached
      | failed hf hf' hs hs' hreached hn =>
          rw [iterate_succ_of_step_error hf hs, iterate_succ_of_step_error hf' hs']
          exact ⟨hn, _, hreached, .failed _⟩

theorem resultWith {cpu : Cpu} (hc : a.cpu = some cpu) (ok : Bool) (fault : Option Fault) :
    ResultsAgree g g' (a.resultWith ok (fault.map (g.report cpu.pc)))
      (b.resultWith ok (fault.map (g'.report cpu.pc))) := by
  have hc' : b.cpu = some cpu := h.cpu_eq.symm.trans hc
  refine ⟨rfl, ?_, ?_, ⟨fault, ?_, ?_⟩, h.trace⟩
  · simp only [Machine.resultWith, cycles, hc, hc']
  · simp only [Machine.resultWith, hc, hc']
  · simp only [Machine.resultWith, hc, Option.elim_some]
  · simp only [Machine.resultWith, hc, Option.elim_some]

end Agree

/-! ## Running -/

theorem Wears.limitReport {m : Machine} {g : Guise} (h : m.Wears g) {cpu : Cpu}
    (hc : m.cpu = some cpu) (limit : Int) :
    m.limitReport limit = g.report cpu.pc (.cycleLimit limit) := by
  simp only [Machine.limitReport, hc, h.program_eq, Guise.report]
  cases hf : g.program.fetch? cpu.pc with
  | none => simp [hf]
  | some instruction => simp [hf, siteOf, placeIn, h.file_eq]

/-- Machines that agree where a limit cuts them off both report it, or both cannot write it. -/
theorem Agree.limitOutcome {g g' : Guise} {a b : Machine} (h : Agree g g' a b) {cpu : Cpu}
    (hc : a.cpu = some cpu) (limit : Int) :
    OutcomesAgree g g' (some (a.resultOfFailure (a.limitFailure limit)))
      (some (b.resultOfFailure (b.limitFailure limit))) := by
  cases hw : Text.isWritable limit with
  | true =>
      rw [limitFailure_of_writable hw, limitFailure_of_writable hw, h.left.limitReport hc,
        h.right.limitReport (h.cpu_eq.symm.trans hc)]
      exact .result (h.resultWith hc false (some (.cycleLimit limit)))
  | false =>
      rw [limitFailure_of_not_writable hw, limitFailure_of_not_writable hw]
      exact .crash .unwritable

/-- Machines that agree when they are restarted run alike if they have the same limit in effect. -/
theorem run_agree {g g' : Guise} {a b : Machine} (h : Agree g g' a.restart b.restart)
    {limit limit' : Option Int} (hl : limit.or a.limit = limit'.or b.limit) (budget : Nat) :
    OutcomesAgree g g' (a.run limit budget).1 (b.run limit' budget).1 ∧
      Agree g g' (a.run limit budget).2 (b.run limit' budget).2 := by
  obtain ⟨hn, reached, hreached, he⟩ := h.iterate (a.allowance limit budget)
  obtain ⟨size, hcons⟩ := h.consistent
  obtain ⟨start, hstart, -, -⟩ := hcons.loaded h.left.program_eq
  obtain ⟨cpu, hc, -⟩ := Option.map_eq_some_iff.1 hstart
  obtain ⟨cpu', hc', -⟩ := Option.map_eq_some_iff.1 (h.cpu_eq.symm.trans hstart)
  have hp : a.program = some g.program := h.left.program_eq
  have hp' : b.program = some g'.program := h.right.program_eq
  have hallowance : b.allowance limit' budget = a.allowance limit budget := by
    simp only [allowance, hl]
  cases hi : a.restart.iterate (a.allowance limit budget) with
  | mk ending s =>
      cases hi' : b.restart.iterate (a.allowance limit budget) with
      | mk ending' s' =>
          rw [hi, hi'] at hn he
          rw [hi] at hreached
          rw [← hallowance] at hi'
          rw [run_of_iterate hp hc hi, run_of_iterate hp' hc' hi', ← hl]
          refine ⟨?_, hn⟩
          cases he with
          | finished => exact .result (hn.resultWith hreached true none)
          | exhausted =>
              cases limit.or a.limit with
              | none => exact .none
              | some bound => exact hn.limitOutcome hreached bound
          | failed reason =>
              cases reason with
              | fault fault => exact .result (hn.resultWith hreached false (some fault))
              | crash cause => exact .crash cause

/-! ## One program in two guises -/

section
variable {g g' : Guise} (hp : g.program = g'.program)
include hp

theorem TracesAgree.eq (ht : g.tracing = g'.tracing) (hb : g.trace = g'.trace)
    {trace trace' : Array TraceEntry} (h : TracesAgree g g' trace trace') : trace = trace' := by
  obtain ⟨states, hs, hs'⟩ := h ht
  simp only [Guise.record?, hp, hb] at hs hs'
  refine Array.toList_inj.1 ?_
  exact (List.map_inj_right fun _ _ => Option.some.inj).1 (hs.trans hs'.symm)

/-- Steps of the same program from the same file have the same answer. -/
theorem StepsAgree.answer_eq (hf : g.file = g'.file) {a b : Machine} (h : StepsAgree g g' a b) :
    a.step.1 = b.step.1 := by
  cases h with
  | finished _ _ hs hs' => rw [hs, hs']
  | completed _ _ hs hs' he he' _ =>
      simp only [Guise.record?, hp] at he he'
      rw [hs, hs', Option.some.inj (he.symm.trans he')]
  | failed _ _ hs hs' _ _ =>
      have hr : g.report = g'.report := by
        funext index fault
        simp only [Guise.report, hp, hf]
      rw [hs, hs', hr]

end

end Machine

end RegisterMachine
