import RegisterMachine.Proofs.Architecture.Refinement
import RegisterMachine.Proofs.Machine.Limits

/-!
# Runs of the architecture

A number of commands that lead from one state of the architecture to another, each found in the
program at the address where the one before it led to. A machine that is in the first state follows
them: after as many steps it is in the last.
-/

namespace RegisterMachine

def Instruction.command? (instruction : Instruction) : Option Command := do
  let decoded := Decoded.ofText instruction.text
  (Command.ofTokens (← Mnemonic.ofName? decoded.mnemonic) decoded.arguments).toOption

/-- The command at an address. -/
def Program.command? (program : Program) (pc : Int) : Option Command := do
  (← program.fetch? pc).command?

theorem Instruction.command?_eq_some {instruction : Instruction} {command : Command}
    (h : instruction.command? = some command) :
    ∃ m : Mnemonic, (Decoded.ofText instruction.text).mnemonic = m.name ∧
      Command.ofTokens m (Decoded.ofText instruction.text).arguments = .ok command := by
  obtain ⟨m, hm, hc⟩ := Option.bind_eq_some_iff.1 h
  refine ⟨m, (Mnemonic.name_of_ofName? hm).symm, ?_⟩
  cases ht : Command.ofTokens m (Decoded.ofText instruction.text).arguments with
  | error failure =>
      rw [ht] at hc
      cases hc
  | ok found =>
      rw [ht] at hc
      cases hc
      rfl

namespace Architecture

/-- A number of commands of a program that lead from a state to another and do not leave the
program. -/
inductive Leads (program : Program) : Nat → State → State → Prop
  | refl (s : State) : Leads program 0 s s
  | step {n : Nat} {s t u : State} {command : Command} (code : program.command? s.pc = some command)
      (taken : step program.layout s command = some t) (low : 0 ≤ t.pc)
      (high : t.pc ≤ program.length) (rest : Leads program n t u) : Leads program (n + 1) s u

namespace Leads

variable {program : Program} {j k n : Nat} {s t u : State}

theorem trans (h : Leads program j s t) (h' : Leads program k t u) : Leads program (j + k) s u := by
  induction h with
  | refl => rwa [Nat.zero_add]
  | step code taken low high _ ih =>
      rw [Nat.succ_add]
      exact .step code taken low high (ih h')

/-- Commands can be parted after any number of them. -/
theorem split (h : Leads program n s u) (hj : j ≤ n) :
    ∃ t, Leads program j s t ∧ Leads program (n - j) t u := by
  induction h generalizing j with
  | refl s =>
      obtain rfl : j = 0 := by omega
      exact ⟨s, .refl s, .refl s⟩
  | @step n s t u command code taken low high rest ih =>
      cases j with
      | zero => exact ⟨s, .refl s, .step code taken low high rest⟩
      | succ j =>
          obtain ⟨v, hv, hr⟩ := ih (Nat.le_of_succ_le_succ hj)
          exact ⟨v, .step code taken low high hv, by rwa [Nat.succ_sub_succ]⟩

end Leads

theorem outputs_of_input? {console after : Console} {x : BitVec 32}
    (h : input? console = some (x, after)) : after.outputs = console.outputs := by
  unfold input? at h
  split at h
  next => cases h
  next =>
    split at h
    next =>
      cases h
      simp [Console.outputs, Shown.output?]
    next => cases h

/-- A command takes back nothing that has been written. -/
theorem outputs_of_step {layout : Layout} {s t : State} {command : Command}
    (h : step layout s command = some t) : s.console.outputs <+: t.console.outputs := by
  by_cases hi : command.mnemonic = .input
  · cases command <;> cases hi
    simp only [step, Option.bind_eq_bind, Option.bind_eq_some_iff, Option.pure_def,
      Option.some.injEq] at h
    obtain ⟨⟨x, console⟩, hx, rfl⟩ := h
    rw [← outputs_of_input? hx]
    exact List.prefix_rfl
  · by_cases ho : command.mnemonic = .output
    · cases command <;> cases ho
      cases h
      simp only [State.next, State.goTo, Console.outputs_writeLine]
      exact List.prefix_append _ _
    · have hconsole := (step_frame h).console hi ho
      exact ⟨[], by rw [hconsole, List.append_nil]⟩

theorem Leads.outputs {program : Program} {n : Nat} {s t : State} (h : Leads program n s t) :
    s.console.outputs <+: t.console.outputs := by
  induction h with
  | refl => exact List.prefix_rfl
  | step _ taken _ _ _ ih => exact (outputs_of_step taken).trans ih

end Architecture

namespace Machine

/-- A machine that is in a state of the architecture, in a program from a file. -/
structure Shows (m : Machine) (program : Program) (file : String) (s : Architecture.State) :
    Prop where
  within : ∃ cpu, m.Within program file cpu ∧ cpu.HoldsWords ∧ 0 ≤ cpu.cycles ∧
    Architecture.State.of cpu m.toWorld = s
  words : m.memory.HoldsWords

section
variable {m : Machine} {program : Program} {file : String} {s t : Architecture.State}
  (h : m.Shows program file s)
include h

theorem Shows.isFinished : m.isFinished = decide ((program.length : Int) ≤ s.pc) := by
  obtain ⟨cpu, hw, -, -, rfl⟩ := h.within
  exact isFinished_of_loaded hw.program_eq hw.cpu_eq

/-- A machine takes the step that the command at its address takes in the architecture. -/
theorem Shows.step {command : Command} (hc : program.command? s.pc = some command)
    (ht : Architecture.step program.layout s command = some t) (h0 : 0 ≤ t.pc)
    (hl : t.pc ≤ program.length) :
    ∃ next, m.nth? 1 = some next ∧ next.Shows program file t := by
  obtain ⟨cpu, hw, hwords, hcycles, rfl⟩ := h.within
  obtain ⟨instruction, hi, hcommand⟩ := Option.bind_eq_some_iff.1 hc
  obtain ⟨mnemonic, hm, htokens⟩ := Instruction.command?_eq_some hcommand
  have hlt : cpu.pc < program.length := Program.lt_length_of_fetch? hw.pc_nonneg hi
  -- What the registry does is what the architecture says, seen through the bits of the words.
  have ha := Architecture.execute_agree hwords h.words program.layout
    ((Command.ofTokens_yields _ _).of_ok htokens)
  rw [ht, ← Registry.execute_of_command hwords hm program.layout m.toWorld htokens] at ha
  cases hx : Registry.standard.execute program.layout cpu (Decoded.ofText instruction.text)
      m.toWorld with
  | mk result world =>
      rw [hx] at ha
      cases result with
      | error failure => exact ha.elim
      | ok next =>
          obtain ⟨rfl, hn, hmemory⟩ := ha
          have hy : next.cycles = cpu.cycles + 1 := Registry.cycles_of_execute hx
          have hv : next.isValid (some program.length) = true :=
            Cpu.isValid_iff.2 ⟨hn, h0, hl, by omega⟩
          have hf : m.isFinished = false := by
            rw [h.isFinished]
            exact decide_eq_false (Int.not_le.2 hlt)
          have hs := step_of_fetch hw.program_eq hw.cpu_eq hlt (Program.fetch_of_fetch? hi)
          rw [executeAt_of_ok hx hv] at hs
          refine ⟨_, nth?_succ_of_step_ok hf hs 0, ?_, ?_⟩
          · rw [complete_eq]
            exact ⟨next, ⟨hw.program_eq, hw.file_eq, rfl, h0, hl⟩, hn, by omega, rfl⟩
          · rw [complete_eq]
            exact hmemory

theorem Shows.leads {n : Nat} (hn : Architecture.Leads program n s t) :
    ∃ last, m.nth? n = some last ∧ last.Shows program file t := by
  induction hn generalizing m with
  | refl s => exact ⟨m, rfl, h⟩
  | step code taken low high _ ih =>
      obtain ⟨next, hnext, hs⟩ := h.step code taken low high
      obtain ⟨last, hlast, ht⟩ := ih hs
      refine ⟨last, ?_, ht⟩
      rw [Nat.add_comm, nth?_add hnext]
      exact hlast

end

end Machine

end RegisterMachine
