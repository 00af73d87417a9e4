import RegisterMachine.Machine.Run

/-!
# Steps by cases

What a step and a run do, a lemma for each way they can go.
-/

namespace RegisterMachine.Machine

def current? (m : Machine) : Option Instruction := do
  let cpu ← m.cpu
  (← m.program).fetch? cpu.pc

section
variable {m : Machine} {program : Program} {cpu : Cpu}

theorem current?_of_loaded (hp : m.program = some program) (hc : m.cpu = some cpu) :
    m.current? = program.fetch? cpu.pc := by
  simp only [current?, hp, hc]
  rfl

theorem current?_of_not_loaded (hp : m.program = none) : m.current? = none := by
  unfold current?
  cases m.cpu with
  | none => rfl
  | some cpu =>
      rw [hp]
      rfl

theorem isFinished_of_loaded (hp : m.program = some program) (hc : m.cpu = some cpu) :
    m.isFinished = decide ((program.length : Int) ≤ cpu.pc) := by
  simp only [isFinished, hp, hc]

theorem isFinished_of_not_loaded (hp : m.program = none) : m.isFinished = true := by
  simp only [isFinished, hp]

/-! ## Executing an instruction -/

theorem complete_eq (m : Machine) (entry : TraceEntry) :
    m.complete entry =
      { m with
        cpu := some entry.after
        trace := if m.tracing then m.trace.push entry else m.trace } := by
  cases ht : m.tracing <;> simp [complete, ht]

theorem executeAt_of_error {instruction : Instruction} {failure : Failure Fault} {world : World}
    (h : Registry.standard.execute program.layout cpu (Decoded.ofText instruction.text) m.toWorld =
      (.error failure, world)) :
    m.executeAt program cpu instruction =
      (.error (failure.map fun fault => { fault, site := some (m.siteOf instruction cpu.pc) }),
        { m with toWorld := world }) := by
  simp only [executeAt, h]

theorem executeAt_of_ok {instruction : Instruction} {next : Cpu} {world : World}
    (h : Registry.standard.execute program.layout cpu (Decoded.ofText instruction.text) m.toWorld =
      (.ok next, world))
    (hv : next.isValid (some program.length) = true) :
    m.executeAt program cpu instruction =
      (.ok
        { instruction, decoded := Decoded.ofText instruction.text, before := cpu, after := next },
        { m with toWorld := world }.complete
          { instruction, decoded := Decoded.ofText instruction.text, before := cpu,
            after := next }) := by
  simp only [executeAt, h, hv, if_true]

/-- What an instruction that completes has started from and come to. -/
theorem executeAt_eq_ok {instruction : Instruction} {entry : TraceEntry} {next : Machine}
    (h : m.executeAt program cpu instruction = (.ok entry, next)) :
    ∃ world,
      Registry.standard.execute program.layout cpu (Decoded.ofText instruction.text) m.toWorld =
        (.ok entry.after, world) ∧
      entry.after.isValid (some program.length) = true ∧
      entry = { instruction, decoded := Decoded.ofText instruction.text, before := cpu,
                after := entry.after } ∧
      next = { m with toWorld := world }.complete entry := by
  cases hx : Registry.standard.execute program.layout cpu (Decoded.ofText instruction.text)
      m.toWorld with
  | mk result world =>
      cases result with
      | error failure => simp [executeAt_of_error hx] at h
      | ok after =>
          cases hv : after.isValid (some program.length) with
          | false => simp [executeAt, hx, hv] at h
          | true =>
              rw [executeAt_of_ok hx hv] at h
              cases h
              exact ⟨world, rfl, hv, rfl, rfl⟩

/-- An instruction that fails leaves the machine as it was, up to the world, and if it had led to a
state, then to an invalid one. -/
theorem executeAt_eq_error {instruction : Instruction} {failure : Failure Report} {next : Machine}
    (h : m.executeAt program cpu instruction = (.error failure, next)) :
    ∃ result world,
      Registry.standard.execute program.layout cpu (Decoded.ofText instruction.text) m.toWorld =
        (result, world) ∧
      next = { m with toWorld := world } ∧
      ∀ after, result = .ok after → after.isValid (some program.length) = false := by
  cases hx : Registry.standard.execute program.layout cpu (Decoded.ofText instruction.text)
      m.toWorld with
  | mk result world =>
      cases result with
      | error reason =>
          rw [executeAt_of_error hx] at h
          cases h
          exact ⟨_, world, rfl, rfl, nofun⟩
      | ok after =>
          cases hv : after.isValid (some program.length) with
          | true => simp [executeAt_of_ok hx hv] at h
          | false =>
              simp only [executeAt, hx, hv, Bool.false_eq_true, if_false, Prod.mk.injEq] at h
              refine ⟨_, world, rfl, h.2.symm, ?_⟩
              intro other ho
              cases ho
              exact hv

/-- An instruction that fails, for whatever reason, reports the place where it stands. -/
theorem executeAt_failure {instruction : Instruction} {failure : Failure Report} {next : Machine}
    (h : m.executeAt program cpu instruction = (.error failure, next)) :
    ∃ reason : Failure Fault,
      failure = reason.map fun fault => { fault, site := some (m.siteOf instruction cpu.pc) } := by
  cases hx : Registry.standard.execute program.layout cpu (Decoded.ofText instruction.text)
      m.toWorld with
  | mk result world =>
      cases result with
      | error reason =>
          rw [executeAt_of_error hx] at h
          cases h
          exact ⟨reason, rfl⟩
      | ok after =>
          cases hv : after.isValid (some program.length) with
          | true => simp [executeAt_of_ok hx hv] at h
          | false =>
              simp only [executeAt, hx, hv, Bool.false_eq_true, if_false, Prod.mk.injEq,
                Except.error.injEq] at h
              exact ⟨_, h.1.symm⟩

/-! ## Stepping -/

theorem step_of_not_loaded (hp : m.program = none) :
    m.step = (.error (.fault { fault := .notLoaded }), m) := by
  simp only [step, hp]

theorem step_of_end (hp : m.program = some program) (hc : m.cpu = some cpu)
    (hl : (program.length : Int) ≤ cpu.pc) : m.step = (.ok none, m) := by
  simp only [step, hp, hc, hl, if_true]

theorem step_of_fetch (hp : m.program = some program) (hc : m.cpu = some cpu)
    (hl : cpu.pc < program.length) {instruction : Instruction}
    (hf : program.fetch cpu.pc = .ok instruction) :
    m.step =
      ((m.executeAt program cpu instruction).1.map some,
        (m.executeAt program cpu instruction).2) := by
  simp only [step, hp, hc, if_neg (Int.not_le.2 hl), hf]

end

/-- A step that completes an instruction. -/
theorem step_eq_ok {m next : Machine} {entry : TraceEntry}
    (h : m.step = (.ok (some entry), next)) :
    ∃ program, m.program = some program ∧ m.cpu = some entry.before ∧
      entry.before.pc < program.length ∧
      program.fetch entry.before.pc = .ok entry.instruction ∧
      m.executeAt program entry.before entry.instruction = (.ok entry, next) := by
  cases hp : m.program with
  | none => simp [step_of_not_loaded hp] at h
  | some program =>
      cases hc : m.cpu with
      | none => simp [step, hp, hc] at h
      | some cpu =>
          by_cases hl : (program.length : Int) ≤ cpu.pc
          · simp [step_of_end hp hc hl] at h
          · cases hf : program.fetch cpu.pc with
            | error reason => simp [step, hp, hc, hl, hf] at h
            | ok instruction =>
                rw [step_of_fetch hp hc (Int.not_le.1 hl) hf] at h
                cases hx : m.executeAt program cpu instruction with
                | mk result after =>
                    cases result with
                    | error failure => simp [hx, Except.map] at h
                    | ok completed =>
                        simp only [hx, Except.map, Prod.mk.injEq, Except.ok.injEq,
                          Option.some.injEq] at h
                        obtain ⟨rfl, rfl⟩ := h
                        obtain ⟨world, -, -, he, -⟩ := executeAt_eq_ok hx
                        have hb : completed.before = cpu := congrArg TraceEntry.before he
                        have hi : completed.instruction = instruction :=
                          congrArg TraceEntry.instruction he
                        rw [hb, hi]
                        exact ⟨program, rfl, rfl, Int.not_le.1 hl, hf, hx⟩

theorem isFinished_of_step_eq_ok {m next : Machine} {entry : TraceEntry}
    (h : m.step = (.ok (some entry), next)) : m.isFinished = false := by
  obtain ⟨program, hp, hc, hl, -⟩ := step_eq_ok h
  rw [isFinished_of_loaded hp hc]
  exact decide_eq_false (Int.not_le.2 hl)

/-- A step that completes no instruction changes nothing. -/
theorem step_eq_none {m next : Machine} (h : m.step = (.ok none, next)) :
    m.isFinished = true ∧ next = m := by
  unfold step at h
  split at h
  next program cpu hp hc =>
    split at h
    next hl =>
      cases h
      rw [isFinished_of_loaded hp hc]
      exact ⟨decide_eq_true hl, rfl⟩
    next =>
      split at h
      · cases h
      next instruction hf =>
        cases hx : (m.executeAt program cpu instruction).1 <;> simp [hx, Except.map] at h
  next => cases h

/-- A step that fails changes nothing but the world. -/
theorem step_eq_error {m next : Machine} {failure : Failure Report}
    (h : m.step = (.error failure, next)) : next = { m with toWorld := next.toWorld } := by
  unfold step at h
  split at h
  next program cpu hp hc =>
    split at h
    · cases h
    · split at h
      next => cases h; rfl
      next instruction hf =>
        cases hx : m.executeAt program cpu instruction with
        | mk result after =>
            rw [hx] at h
            cases result with
            | ok entry => cases h
            | error reason =>
                obtain ⟨result, world, -, he, -⟩ := executeAt_eq_error hx
                cases h
                rw [he]
  next => cases h; rfl

/-! ## Running -/

section
variable {m : Machine}

theorem run_of_not_loaded (hp : m.program = none) (limit : Option Int) (budget : Nat) :
    m.run limit budget =
      (some (.ok { ok := false, error := some { fault := .notLoaded } }), m) := by
  simp only [run, hp, Option.isSome_none, Bool.false_and]
  rfl

variable {program : Program} {cpu : Cpu} (hp : m.program = some program) (hc : m.cpu = some cpu)
include hp hc

theorem run_of_limit {limit : Option Int} {bound : Int} (hl : limit.or m.limit = some bound)
    (budget : Nat) :
    m.run limit budget = (some (m.runWithin bound).1, (m.runWithin bound).2) := by
  simp only [run, hp, hc, hl, Option.isSome_some, Bool.and_self, if_true]

theorem run_of_no_limit {limit : Option Int} (hl : limit.or m.limit = none) (budget : Nat) :
    m.run limit budget = m.runFreely budget := by
  simp only [run, hp, hc, hl, Option.isSome_some, Bool.and_self, if_true]

end

end RegisterMachine.Machine
