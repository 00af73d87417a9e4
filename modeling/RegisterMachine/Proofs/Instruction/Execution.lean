import RegisterMachine.Proofs.Instruction.Command
import RegisterMachine.Registry

/-!
# Execution of commands

What the standard registry does with a decoded instruction, said through the command that its
tokens denote: no command, no change; otherwise the effect of the command is found and carried out,
and the counters move on.
-/

namespace RegisterMachine

def Command.mnemonic : Command → Mnemonic
  | .load .. => .load
  | .store .. => .store
  | .combine op .. => .combine op
  | .move .. => .move
  | .moveNot .. => .moveNot
  | .compare .. => .compare
  | .branch _ => .branch
  | .branchIf relation _ => .branchIf relation
  | .input _ => .input
  | .output _ => .output
  | .halt => .halt

theorem Command.mnemonic_of_ofTokens {m : Mnemonic} {arguments : List String} {command : Command}
    (h : Command.ofTokens m arguments = .ok command) : command.mnemonic = m := by
  have hy : Yields (fun command => command.mnemonic = m) (fun _ => True)
      (Command.ofTokens m arguments) := by
    unfold Command.ofTokens
    split
    case h_3 =>
      exact (Yields.any _).bind fun _ _ => (Yields.any _).bind fun _ _ =>
        (Yields.any _).bind fun _ _ => rfl
    case h_1 | h_2 | h_4 | h_5 | h_6 =>
      exact (Yields.any _).bind fun _ _ => (Yields.any _).bind fun _ _ => rfl
    case h_9 | h_10 => exact (Yields.any _).bind fun _ _ => rfl
    case h_7 | h_8 | h_11 => exact rfl
    case h_12 => exact trivial
  exact hy.of_ok h

/-- The counters after an instruction that has led to a state. -/
def Command.retire (command : Command) (cpu : Cpu) : Cpu :=
  (if command.mnemonic.setsPc then cpu else cpu.advance).countCycle

def Command.execute (command : Command) (layout : Layout) (cpu : Cpu) (world : World) :
    Except (Failure Fault) Cpu × World :=
  match command.effect layout cpu world.memory.size with
  | .error failure => (.error failure, world)
  | .ok effect =>
      let (result, world) := effect.perform cpu world
      (result.map command.retire, world)

theorem Command.execute_of_effect {command : Command} {layout : Layout} {cpu : Cpu} {world : World}
    {effect : Effect} (h : command.effect layout cpu world.memory.size = .ok effect) :
    command.execute layout cpu world =
      ((effect.perform cpu world).1.map command.retire, (effect.perform cpu world).2) := by
  simp only [execute, h]

theorem Command.execute_of_failure {command : Command} {layout : Layout} {cpu : Cpu}
    {world : World} {failure : Failure Fault}
    (h : command.effect layout cpu world.memory.size = .error failure) :
    command.execute layout cpu world = (.error failure, world) := by
  simp only [execute, h]

theorem Cpu.HoldsWords.retire {cpu : Cpu} (h : cpu.HoldsWords) (command : Command) :
    (command.retire cpu).HoldsWords := by
  unfold Command.retire
  split <;> exact ⟨h.length_eq, h.inRange⟩

section
variable {cpu : Cpu} (h : cpu.HoldsWords) {decoded : Decoded} {m : Mnemonic}
  (hm : decoded.mnemonic = m.name) (layout : Layout) (world : World)
include h hm

/-- An instruction with one of the twenty mnemonics executes as the command that its tokens
denote, or fails as the reading of its tokens does and leaves the world as it was. -/
theorem Registry.execute_standard :
    standard.execute layout cpu decoded world =
      match Command.ofTokens m decoded.arguments with
      | .error failure => (.error failure, world)
      | .ok command => command.execute layout cpu world := by
  have hf : standard.find? decoded.mnemonic = some (builtIn m) := by
    rw [hm]
    exact find?_standard m
  simp only [execute, hf, builtIn, Mnemonic.handler_eq, m.effect_eq h]
  cases hc : Command.ofTokens m decoded.arguments with
  | error failure => rfl
  | ok command =>
      have hr : command.retire =
          fun next => (if m.setsPc then next else next.advance).countCycle := by
        funext next
        rw [Command.retire, Command.mnemonic_of_ofTokens hc]
      simp only [bind, Except.bind, Command.execute, hr]
      cases command.effect layout cpu world.memory.size <;> rfl

theorem Registry.execute_of_command {command : Command}
    (hc : Command.ofTokens m decoded.arguments = .ok command) :
    standard.execute layout cpu decoded world = command.execute layout cpu world := by
  rw [execute_standard h hm, hc]

theorem Registry.execute_of_unread {failure : Failure Fault}
    (hc : Command.ofTokens m decoded.arguments = .error failure) :
    standard.execute layout cpu decoded world = (.error failure, world) := by
  rw [execute_standard h hm, hc]

end

end RegisterMachine
