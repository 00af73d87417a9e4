import RegisterMachine.Proofs.Instruction.Frame
import RegisterMachine.Proofs.Machine.Steps
import RegisterMachine.Proofs.Program.WellFormed

/-!
# Failing steps

Memory and console are written while an instruction executes, before the state that it leads to is
checked. Nothing needs to be undone for all that: an instruction that writes to memory or to the
console leads to a valid state, so a step that fails has written nothing. What it may have done is
to ask for a line of input and to take it.
-/

namespace RegisterMachine

/-- Whether an instruction reads a line of input when it is executed: it is the one for that, with a
register as its only argument. -/
def Decoded.ReadsInput (decoded : Decoded) : Prop :=
  decoded.mnemonic = Mnemonic.input.name ∧
    ∃ token r, decoded.arguments = [token] ∧ Register.ofToken token = .ok r

def World.prompted (world : World) : World :=
  { world with console := (world.console.readLine inputPrompt).2 }

/-! ## Effects -/

namespace Effect

theorem world_of_failure {effect : Effect} {cpu : Cpu} {world after : World}
    {failure : Failure Fault} (hi : ∀ r, effect ≠ .input r)
    (h : effect.perform cpu world = (.error failure, after)) : after = world := by
  cases effect with
  | set r v => exact (congrArg Prod.snd h).symm
  | load r address => exact (congrArg Prod.snd h).symm
  | store address v =>
      cases hw : world.memory.write address v with
      | error reason =>
          simp only [perform, hw] at h
          exact (congrArg Prod.snd h).symm
      | ok memory => simp [perform, hw] at h
  | compare left right => cases h
  | jump target => cases h
  | input r => exact (hi r rfl).elim
  | output v => cases h

/-- An effect that changes the world leaves the program counter alone, and the registers words. -/
theorem world_of_success {effect : Effect} {cpu next : Cpu} {world after : World}
    (hc : cpu.HoldsWords) (h : effect.perform cpu world = (.ok next, after)) :
    ((∀ r, effect ≠ .input r) ∧ after = world) ∨ effect.target? = none ∧ next.HoldsWords := by
  cases effect with
  | set r v => exact .inl ⟨by simp, (congrArg Prod.snd h).symm⟩
  | load r address => exact .inl ⟨by simp, (congrArg Prod.snd h).symm⟩
  | store address v =>
      cases hw : world.memory.write address v with
      | error reason => simp [perform, hw] at h
      | ok memory =>
          simp only [perform, hw, Prod.mk.injEq, Except.ok.injEq] at h
          rw [← h.1]
          exact .inr ⟨rfl, hc⟩
  | compare left right =>
      cases h
      exact .inl ⟨by simp, rfl⟩
  | jump target =>
      cases h
      exact .inl ⟨by simp, rfl⟩
  | input r =>
      simp only [perform, hc.write_eq, orCrash_ok] at h
      cases hv : world.readWord.1 with
      | error failure => simp [hv, bind, Except.bind] at h
      | ok v =>
          simp only [hv, bind, Except.bind, Prod.mk.injEq, Except.ok.injEq] at h
          rw [← h.1]
          exact .inr ⟨rfl, hc.put r v⟩
  | output v =>
      cases h
      exact .inr ⟨rfl, hc⟩

end Effect

/-! ## Commands -/

namespace Command

theorem world_of_failure {command : Command} {layout : Layout} {cpu : Cpu} {world after : World}
    {failure : Failure Fault} (hi : ∀ d, command ≠ .input d)
    (h : command.execute layout cpu world = (.error failure, after)) : after = world := by
  cases he : command.effect layout cpu world.memory.size with
  | error reason =>
      rw [execute_of_failure he] at h
      exact (congrArg Prod.snd h).symm
  | ok effect =>
      have hn : ∀ r, effect ≠ .input r := by
        intro r hr
        rw [hr] at he
        exact hi r (eq_input_of_effect he)
      rw [execute_of_effect he] at h
      cases hp : effect.perform cpu world with
      | mk result reached =>
          cases result with
          | ok carried => simp [hp, Except.map] at h
          | error reason =>
              rw [hp] at h
              exact (congrArg Prod.snd h).symm.trans (Effect.world_of_failure hn hp)

/-- The state behind a command that changed the world is valid. -/
theorem world_of_success {command : Command} {layout : Layout} {cpu next : Cpu}
    {world after : World} (hc : cpu.HoldsWords)
    (h : command.execute layout cpu world = (.ok next, after)) :
    ((∀ d, command ≠ .input d) ∧ after = world) ∨
      next.HoldsWords ∧ next.pc = cpu.pc + 1 ∧ next.cycles = cpu.cycles + 1 := by
  obtain ⟨effect, carried, he, hp, rfl⟩ := execute_eq_ok h
  rcases Effect.world_of_success hc hp with ⟨hi, hw⟩ | ⟨ht, hn⟩
  · refine .inl ⟨?_, hw⟩
    intro d hd
    rw [hd] at he
    cases he
    exact hi d rfl
  · obtain ⟨hpc, hcy, -⟩ := Effect.control_of_perform hp
    have hs : command.mnemonic.setsPc = false := by
      rw [← setsPc_of_effect he, ht]
      rfl
    rw [ht] at hpc
    refine .inr ⟨hn.retire command, ?_, ?_⟩
    · simp only [retire, hs, Bool.false_eq_true, if_false, Cpu.advance, Cpu.jump, Cpu.countCycle,
        hpc, Option.getD_none]
    · simp only [retire, hs, Bool.false_eq_true, if_false, Cpu.advance, Cpu.jump, Cpu.countCycle,
        hcy]

end Command

/-! ## Instructions -/

theorem Decoded.readsInput_iff {decoded : Decoded} {m : Mnemonic}
    (hm : decoded.mnemonic = m.name) :
    decoded.ReadsInput ↔ ∃ d, Command.ofTokens m decoded.arguments = .ok (.input d) := by
  rw [Command.ofTokens_eq_input_iff]
  refine and_congr_left fun _ => ?_
  constructor
  · intro hi
    exact Mnemonic.name_injective (hm.symm.trans hi)
  · intro hi
    rw [hm, hi]

section
variable {layout : Layout} {cpu : Cpu} (hc : cpu.HoldsWords) {decoded : Decoded}
  {world after : World}
include hc

theorem Registry.world_of_failure {failure : Failure Fault}
    (h : standard.execute layout cpu decoded world = (.error failure, after)) :
    (decoded.ReadsInput → after = world.prompted) ∧ (¬decoded.ReadsInput → after = world) := by
  by_cases hk : ∃ m : Mnemonic, decoded.mnemonic = m.name
  · obtain ⟨m, hm⟩ := hk
    rw [Decoded.readsInput_iff hm]
    cases ht : Command.ofTokens m decoded.arguments with
    | error reason =>
        rw [execute_of_unread hc hm layout world ht] at h
        exact ⟨nofun, fun _ => (congrArg Prod.snd h).symm⟩
    | ok command =>
        rw [execute_of_command hc hm layout world ht] at h
        constructor
        · intro hr
          obtain ⟨d, hd⟩ := hr
          cases hd
          exact (congrArg Prod.snd h).symm
        · intro hr
          refine Command.world_of_failure ?_ h
          intro d hd
          exact hr ⟨d, congrArg _ hd⟩
  · have hn : ∀ m : Mnemonic, decoded.mnemonic ≠ m.name := fun m hm => hk ⟨m, hm⟩
    rw [execute_of_not_mnemonic hn] at h
    exact ⟨fun hr => (hn .input hr.1).elim, fun _ => (congrArg Prod.snd h).symm⟩

theorem Registry.world_of_success {next : Cpu}
    (h : standard.execute layout cpu decoded world = (.ok next, after)) :
    (¬decoded.ReadsInput ∧ after = world) ∨
      next.HoldsWords ∧ next.pc = cpu.pc + 1 ∧ next.cycles = cpu.cycles + 1 := by
  by_cases hk : ∃ m : Mnemonic, decoded.mnemonic = m.name
  · obtain ⟨m, hm⟩ := hk
    cases ht : Command.ofTokens m decoded.arguments with
    | error reason => simp [execute_of_unread hc hm layout world ht] at h
    | ok command =>
        rw [execute_of_command hc hm layout world ht] at h
        refine (Command.world_of_success hc h).imp_left ?_
        intro hw
        refine ⟨?_, hw.2⟩
        rw [Decoded.readsInput_iff hm]
        intro hr
        obtain ⟨d, hd⟩ := hr
        exact hw.1 d (Except.ok.inj (ht.symm.trans hd))
  · have hn : ∀ m : Mnemonic, decoded.mnemonic ≠ m.name := fun m hm => hk ⟨m, hm⟩
    simp [execute_of_not_mnemonic hn] at h

end

/-! ## Steps -/

namespace Machine

/-- What is left of a machine whose instruction failed: all of it, but that the instruction has
asked for a line if it was to read one. -/
def Aborted (m next : Machine) : Prop :=
  ∃ instruction, m.current? = some instruction ∧
    ((Decoded.ofText instruction.text).ReadsInput →
      next = { m with toWorld := m.toWorld.prompted }) ∧
    (¬(Decoded.ofText instruction.text).ReadsInput → next = m)

theorem aborted_of_step {m next : Machine} {program : Program} {cpu : Cpu}
    (hp : m.program = some program) (hc : m.cpu = some cpu) (hw : cpu.HoldsWords)
    (h0 : 0 ≤ cpu.pc) (hl : cpu.pc < program.length) (hy : 0 ≤ cpu.cycles)
    {failure : Failure Report} (h : m.step = (.error failure, next)) : m.Aborted next := by
  obtain ⟨instruction, hf⟩ := Program.exists_fetch? h0 hl
  refine ⟨instruction, (current?_of_loaded hp hc).trans hf, ?_⟩
  rw [step_of_fetch hp hc hl (Program.fetch_of_fetch? hf)] at h
  cases hx : m.executeAt program cpu instruction with
  | mk result reached =>
      cases result with
      | ok entry => simp [hx, Except.map] at h
      | error reason =>
          simp only [hx, Except.map, Prod.mk.injEq] at h
          obtain ⟨-, rfl⟩ := h
          obtain ⟨result, world, hr, rfl, hv⟩ := executeAt_eq_error hx
          cases result with
          | error fault =>
              obtain ⟨hi, hn⟩ := Registry.world_of_failure hw hr
              exact ⟨fun h => by rw [hi h], fun h => by rw [hn h]⟩
          | ok after =>
              rcases Registry.world_of_success hw hr with ⟨hn, rfl⟩ | ⟨ha, hpc, hcy⟩
              · exact ⟨fun h => (hn h).elim, fun _ => rfl⟩
              · -- Such a state passes the check, so the step would not have failed.
                have ht : after.isValid (some program.length) = true :=
                  Cpu.isValid_iff.2 ⟨ha, by omega, by omega, by omega⟩
                rw [hv after rfl] at ht
                cases ht

/-- A step that fails, for whatever reason and in whatever program, leaves the processor, the
program, memory, the trace and the output as they were. It leaves the input as it was, too, unless
the instruction was to read a line: then it has shown one prompt and taken at most one line. -/
theorem step_failure_atomic {m next : Machine} {program : Program} {cpu : Cpu}
    (hp : m.program = some program) (hc : m.cpu = some cpu) (hw : cpu.HoldsWords)
    (h0 : 0 ≤ cpu.pc) (hl : cpu.pc < program.length) (hy : 0 ≤ cpu.cycles)
    {failure : Failure Report} (h : m.step = (.error failure, next)) :
    next = { m with console := next.console } ∧
      next.console.outputs = m.console.outputs ∧
      ∃ instruction, program.fetch? cpu.pc = some instruction ∧
        ((Decoded.ofText instruction.text).ReadsInput →
          next.console.prompts = m.console.prompts ++ [inputPrompt] ∧
            ∃ taken, taken.length ≤ 1 ∧ m.console.pending = taken ++ next.console.pending) ∧
        (¬(Decoded.ofText instruction.text).ReadsInput → next.console = m.console) := by
  obtain ⟨instruction, hi, hr, hn⟩ := aborted_of_step hp hc hw h0 hl hy h
  have hf : program.fetch? cpu.pc = some instruction := (current?_of_loaded hp hc).symm.trans hi
  by_cases hd : (Decoded.ofText instruction.text).ReadsInput
  · obtain rfl := hr hd
    refine ⟨rfl, Console.outputs_readLine _ _, instruction, hf, fun _ => ?_, fun h => (h hd).elim⟩
    refine ⟨Console.prompts_readLine _ _, m.console.pending.take 1, List.length_take_le _ _, ?_⟩
    simp [World.prompted, Console.readLine, List.take_append_drop, ← List.drop_one]
  · obtain rfl := hn hd
    exact ⟨rfl, rfl, instruction, hf, fun h => (hd h).elim, fun _ => rfl⟩

/-- A line that is no number, read under a program that was put together by hand. -/
theorem step_failure_atomic_input :
    let m : Machine :=
      { memory := Memory.zeroed 4 (by decide) (by decide)
        console := { pending := ["ten", "10"] }
        program := some { instructions := #[{ text := "IN R4", line := 0 }] }
        cpu := some Cpu.initial }
    ∃ failure next, m.step = (.error failure, next) ∧ next = { m with console := next.console } ∧
      next.console.outputs = [] ∧ next.console.prompts = [inputPrompt] := by
  intro m
  have hp : m.program = some { instructions := #[{ text := "IN R4", line := 0 }] } := rfl
  have hc : m.cpu = some Cpu.initial := rfl
  have he : m.step.1.isOk = false := by decide +kernel
  have hd : (Decoded.ofText "IN R4").ReadsInput :=
    ⟨by decide +kernel, "R4", ⟨4, by decide⟩, by decide +kernel, by decide +kernel⟩
  cases hs : m.step with
  | mk result next =>
      cases result with
      | ok entry =>
          rw [hs] at he
          cases he
      | error failure =>
          obtain ⟨hm, ho, instruction, hi, hr, -⟩ :=
            step_failure_atomic hp hc Cpu.holdsWords_initial (by decide) (by decide) (by decide) hs
          cases hi
          exact ⟨failure, next, rfl, hm, ho, (hr hd).1⟩

end Machine

end RegisterMachine
