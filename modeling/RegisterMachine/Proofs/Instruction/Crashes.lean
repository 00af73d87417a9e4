import RegisterMachine.Proofs.Instruction.Roles
import RegisterMachine.Proofs.Instruction.Soundness

/-!
# Crashes of instructions

In a processor that fits its program, an instruction crashes for one of two reasons: an argument
holds a numeral that denotes no number, or the line that is read as input is such a numeral.
-/

namespace RegisterMachine

def Console.AwaitsUnreadable (console : Console) : Prop :=
  ∃ line rest, console.pending = line :: rest ∧ Text.Unreadable line.toList

/-- Whether an instruction comes across a numeral that denotes no number: in the leftmost of its
arguments that cannot be read, or in the line that it reads into a register. -/
def Mnemonic.MeetsUnreadable (m : Mnemonic) (arguments : List String) (console : Console) : Prop :=
  (arguments.length = m.arity ∧ LeftmostUnreadable (m.roles.zip arguments)) ∨
    (m = .input ∧ ∃ token d, arguments = [token] ∧ Register.ofToken token = .ok d) ∧
      console.AwaitsUnreadable

theorem crashes_readWord_iff (world : World) :
    Crashes world.readWord.1 ↔ world.console.AwaitsUnreadable := by
  unfold World.readWord Console.readLine Console.AwaitsUnreadable
  cases world.console.pending with
  | nil =>
      refine iff_of_false (not_crashes_fault _) ?_
      intro h
      obtain ⟨line, rest, hl, -⟩ := h
      cases hl
  | cons line rest =>
      refine (crashes_wordOr_iff .badInput line.toList).trans ?_
      constructor
      · intro h
        exact ⟨line, rest, rfl, h⟩
      · intro h
        obtain ⟨_, _, hl, hu⟩ := h
        cases hl
        exact hu

theorem Effect.crashes_perform_iff {effect : Effect} {setsPc : Bool} {length : Int} {world : World}
    (he : effect.Sound setsPc length world.memory.size) {cpu : Cpu} (hc : cpu.HoldsWords) :
    Crashes (effect.perform cpu world).1 ↔
      (∃ r, effect = .input r) ∧ world.console.AwaitsUnreadable := by
  by_cases hi : ∃ r, effect = .input r
  · obtain ⟨r, rfl⟩ := hi
    simp only [perform, hc.write_eq, orCrash_ok]
    refine (crashes_bind_iff _ _).trans ?_
    rw [crashes_readWord_iff]
    constructor
    · intro h
      rcases h with h | ⟨v, -, h⟩
      · exact ⟨⟨r, rfl⟩, h⟩
      · exact (not_crashes_ok _ h).elim
    · intro h
      exact .inl h.2
  · obtain ⟨next, hn⟩ := perform_completes he.inBounds hc (not_exists.1 hi)
    rw [hn]
    exact iff_of_false (not_crashes_ok next) fun h => hi h.1

/-- Only the command of reading input resolves to reading input. -/
theorem Command.eq_input_of_effect {command : Command} {layout : Layout} {cpu : Cpu}
    {memorySize : Int} {r : Register}
    (h : command.effect layout cpu memorySize = .ok (.input r)) : command = .input r := by
  have hy : Yields (fun effect => effect = .input r → command = .input r) (fun _ => True)
      (command.effect layout cpu memorySize) := by
    cases command with
    | input d =>
        intro he
        cases he
        rfl
    | load | store | branch =>
        refine (Yields.any _).bind fun _ _ => ?_
        intro he
        cases he
    | branchIf relation label =>
        simp only [effect]
        split
        next => exact trivial
        next =>
          refine (Yields.any _).bind fun _ _ => ?_
          intro he
          cases he
    | combine | move | moveNot | compare | output | halt =>
        intro he
        cases he
  exact hy.of_ok h rfl

theorem Command.ofTokens_eq_input_iff (m : Mnemonic) (arguments : List String) :
    (∃ d, Command.ofTokens m arguments = .ok (.input d)) ↔
      m = .input ∧ ∃ token d, arguments = [token] ∧ Register.ofToken token = .ok d := by
  constructor
  · intro h
    obtain ⟨d, h⟩ := h
    obtain rfl : Mnemonic.input = m := mnemonic_of_ofTokens h
    have hl : arguments.length = Mnemonic.input.arity := by
      by_contra hl
      rw [ofTokens_of_length_ne hl] at h
      cases h
    obtain ⟨token, rfl⟩ := List.length_eq_one_iff.1 hl
    cases hr : Register.ofToken token with
    | error failure =>
        simp only [ofTokens, hr] at h
        cases h
    | ok r => exact ⟨rfl, token, r, rfl, hr⟩
  · intro h
    obtain ⟨rfl, token, d, rfl, hr⟩ := h
    refine ⟨d, ?_⟩
    simp only [ofTokens, hr]
    rfl

section
variable {cpu : Cpu} {layout : Layout} (hc : cpu.Fits layout.length)
  (hlt : cpu.pc < layout.length) (hl : layout.Bounded) (world : World)
include hc hlt hl

theorem Command.crashes_execute_iff {command : Command} (hw : command.HoldsWords) :
    Crashes (command.execute layout cpu world).1 ↔
      (∃ d, command = .input d) ∧ world.console.AwaitsUnreadable := by
  have he := Command.effect_yields hw hc hlt hl world.memory.isWritable_size
  cases hr : command.effect layout cpu world.memory.size with
  | error failure =>
      have hf : failure.Reported := he.of_error hr
      rw [execute_of_failure hr]
      refine iff_of_false hf.not_crashes ?_
      intro h
      obtain ⟨⟨d, rfl⟩, -⟩ := h
      cases hr
  | ok effect =>
      rw [execute_of_effect hr, crashes_map_iff,
        Effect.crashes_perform_iff (he.of_ok hr) hc.words]
      refine and_congr_left fun _ => ?_
      constructor
      · intro h
        obtain ⟨d, rfl⟩ := h
        exact ⟨d, eq_input_of_effect hr⟩
      · intro h
        obtain ⟨d, rfl⟩ := h
        cases hr
        exact ⟨d, rfl⟩

/-- Reading the arguments can crash, and so can reading input once they have been read. -/
theorem Registry.crashes_execute_iff {decoded : Decoded} {m : Mnemonic}
    (hd : decoded.mnemonic = m.name) :
    Crashes (standard.execute layout cpu decoded world).1 ↔
      m.MeetsUnreadable decoded.arguments world.console := by
  have hy := Command.ofTokens_yields m decoded.arguments
  unfold Mnemonic.MeetsUnreadable
  rw [← crashes_ofTokens_iff, ← Command.ofTokens_eq_input_iff]
  cases ht : Command.ofTokens m decoded.arguments with
  | error failure =>
      rw [execute_of_unread hc.words hd layout world ht]
      constructor
      · intro h
        obtain ⟨reason, h⟩ := h
        cases h
        exact .inl ⟨reason, rfl⟩
      · intro h
        rcases h with ⟨reason, h⟩ | ⟨⟨d, h⟩, -⟩
        · cases h
          exact ⟨reason, rfl⟩
        · cases h
  | ok command =>
      rw [execute_of_command hc.words hd layout world ht,
        Command.crashes_execute_iff hc hlt hl world (hy.of_ok ht)]
      constructor
      · intro h
        obtain ⟨⟨d, rfl⟩, hu⟩ := h
        exact .inr ⟨⟨d, rfl⟩, hu⟩
      · intro h
        rcases h with h | ⟨⟨d, h⟩, hu⟩
        · exact (not_crashes_ok command h).elim
        · cases h
          exact ⟨⟨d, rfl⟩, hu⟩

end

end RegisterMachine
