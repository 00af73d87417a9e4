import RegisterMachine.Machine

/-!
# Running

A run starts the loaded program anew and steps until the program is finished, a step fails or a
budget of steps is used up. A cycle limit is such a budget, and using it up is a failure. A run
without a limit need not end, so its budget is no property of the program, and using it up
leaves the run without a result.
-/

namespace RegisterMachine

structure RunResult where
  /-- Whether the program came to its end. -/
  ok : Bool
  cycles : Int := 0
  pc : Int := 0
  error : Option Report := none
  trace : Array TraceEntry := #[]
  deriving DecidableEq, Repr

def RunResult.traceback (result : RunResult) : String :=
  result.error.elim "" Report.traceback

inductive Ending where
  | finished
  | failed (failure : Failure Report)
  | exhausted
  deriving DecidableEq, Repr

namespace Machine

/-- Steps at most `budget` times. That the program is finished is noticed before the budget is,
and the budget before the next instruction can fail. -/
def iterate (m : Machine) (budget : Nat) : Ending × Machine :=
  if m.isFinished then (.finished, m)
  else
    match budget with
    | 0 => (.exhausted, m)
    | budget + 1 =>
        match m.step with
        | (.ok _, m) => m.iterate budget
        | (.error failure, m) => (.failed failure, m)

/-- The machine at the start of a run: registers, memory and console stay. -/
def restart (m : Machine) : Machine :=
  { m with cpu := m.cpu.map Cpu.restart, trace := #[] }

/-- The report of a cycle limit, at the instruction that is no longer executed. -/
def limitReport (m : Machine) (limit : Int) : Report :=
  { fault := .cycleLimit limit
    site := do
      let cpu ← m.cpu
      let instruction ← (← m.program).fetch? cpu.pc
      return m.siteOf instruction cpu.pc }

/-- The failure of a run at its limit. A limit that cannot be written is not reported. -/
def limitFailure (m : Machine) (limit : Int) : Failure Report :=
  (Fault.cycleLimit limit).toFailure.map fun _ => m.limitReport limit

def resultWith (m : Machine) (ok : Bool) (error : Option Report) : RunResult :=
  { ok, cycles := m.cycles, pc := m.cpu.elim 0 (·.pc), error, trace := m.trace }

/-- The result of a run that a failure ended. A crash leaves none. -/
def resultOfFailure (m : Machine) : Failure Report → Except Crash RunResult
  | .fault report => .ok (m.resultWith false (some report))
  | .crash reason => .error reason

/-- Runs at most a number of cycles; a negative limit allows none, as zero does. -/
def runWithin (m : Machine) (limit : Int) : Except Crash RunResult × Machine :=
  let (ending, m) := m.restart.iterate limit.toNat
  (match ending with
    | .finished => .ok (m.resultWith true none)
    | .failed failure => m.resultOfFailure failure
    | .exhausted => m.resultOfFailure (m.limitFailure limit), m)

/-- Runs without a limit; there is no result if the budget is used up. -/
def runFreely (m : Machine) (budget : Nat) : Option (Except Crash RunResult) × Machine :=
  let (ending, m) := m.restart.iterate budget
  (match ending with
    | .finished => some (.ok (m.resultWith true none))
    | .failed failure => some (m.resultOfFailure failure)
    | .exhausted => none, m)

/-- Runs the loaded program from its first instruction. A limit given here goes before the
machine's own; the budget is that of a run that has neither. -/
def run (m : Machine) (limit : Option Int) (budget : Nat) :
    Option (Except Crash RunResult) × Machine :=
  if m.program.isSome && m.cpu.isSome then
    match limit.or m.limit with
    | some limit =>
        let (result, m) := m.runWithin limit
        (some result, m)
    | none => m.runFreely budget
  else (some (.ok { ok := false, error := some { fault := .notLoaded } }), m)

theorem limitFailure_of_writable
    {limit : Int} (h : Text.isWritable limit = true) (m : Machine) :
    m.limitFailure limit = .fault (m.limitReport limit) := by
  rw [limitFailure, Fault.toFailure_cycleLimit, if_pos h, Failure.map]

theorem limitFailure_of_not_writable
    {limit : Int} (h : Text.isWritable limit = false) (m : Machine) :
    m.limitFailure limit = .crash .unwritable := by
  rw [limitFailure, Fault.toFailure_cycleLimit, if_neg (ne_true_of_eq_false h), Failure.map]

theorem iterate_of_isFinished
    {m : Machine} (h : m.isFinished = true) (budget : Nat) :
    m.iterate budget = (.finished, m) := by
  unfold iterate
  simp [h]

theorem iterate_zero
    {m : Machine} (h : m.isFinished = false) :
    m.iterate 0 = (.exhausted, m) := by
  unfold iterate
  simp [h]

theorem iterate_succ_of_step_ok
    {m next : Machine} {entry : Option TraceEntry} (h : m.isFinished = false)
    (hs : m.step = (.ok entry, next)) (budget : Nat) :
    m.iterate (budget + 1) = next.iterate budget := by
  rw [iterate]
  simp [h, hs]

theorem iterate_succ_of_step_error
    {m next : Machine} {failure : Failure Report} (h : m.isFinished = false)
    (hs : m.step = (.error failure, next)) (budget : Nat) :
    m.iterate (budget + 1) = (.failed failure, next) := by
  rw [iterate]
  simp [h, hs]

end Machine

end RegisterMachine
