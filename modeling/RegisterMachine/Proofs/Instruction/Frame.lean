import RegisterMachine.Proofs.Instruction.Crashes

/-!
# What an instruction leaves as it was

The control state of a processor is its program counter, its comparison and its count of cycles. An
effect changes it under a jump and under a comparison only, whatever registers the processor has. So
an instruction that completes counts as one cycle, and it leaves the comparison alone if it is not
one itself.
-/

namespace RegisterMachine

/-! ## Effects -/

namespace Effect

def target? : Effect → Option Int
  | .jump target => some target
  | _ => none

def comparison? : Effect → Option Comparison
  | .compare left right => some { left, right }
  | _ => none

end Effect

theorem Cpu.eq_put_of_write {cpu next : Cpu} {r : Register} {v : Int}
    (h : cpu.write r v = .ok next) : next = cpu.put r v := by
  unfold write at h
  split at h
  · cases h
    rfl
  · cases h

/-- The control state after an effect, in a processor with any registers. -/
theorem Effect.control_of_perform {effect : Effect} {cpu next : Cpu} {world after : World}
    (h : effect.perform cpu world = (.ok next, after)) :
    next.pc = effect.target?.getD cpu.pc ∧ next.cycles = cpu.cycles ∧
      next.comparison = effect.comparison?.or cpu.comparison := by
  have written {r : Register} {v : Int} (hw : cpu.write r v = .ok next) :
      next.pc = cpu.pc ∧ next.cycles = cpu.cycles ∧ next.comparison = cpu.comparison := by
    rw [Cpu.eq_put_of_write hw]
    exact ⟨rfl, rfl, rfl⟩
  cases effect with
  | set r v =>
      cases hw : cpu.write r v with
      | error reason => simp [perform, hw] at h
      | ok put =>
          simp only [perform, hw, orCrash_ok, Prod.mk.injEq, Except.ok.injEq] at h
          exact written (hw.trans (congrArg _ h.1))
  | load r address =>
      cases hr : world.memory.read address with
      | error reason => simp [perform, hr, bind, Except.bind] at h
      | ok v =>
          cases hw : cpu.write r v with
          | error reason => simp [perform, hr, hw, bind, Except.bind] at h
          | ok put =>
              simp only [perform, hr, hw, bind, Except.bind, orCrash_ok, Prod.mk.injEq,
                Except.ok.injEq] at h
              exact written (hw.trans (congrArg _ h.1))
  | store address v =>
      cases hw : world.memory.write address v with
      | error reason => simp [perform, hw] at h
      | ok memory =>
          simp only [perform, hw, Prod.mk.injEq, Except.ok.injEq] at h
          obtain ⟨rfl, -⟩ := h
          exact ⟨rfl, rfl, rfl⟩
  | compare left right =>
      cases h
      exact ⟨rfl, rfl, rfl⟩
  | jump target =>
      cases h
      exact ⟨rfl, rfl, rfl⟩
  | input r =>
      simp only [perform] at h
      cases hv : world.readWord.1 with
      | error failure => simp [hv, bind, Except.bind] at h
      | ok v =>
          cases hw : cpu.write r v with
          | error reason => simp [hv, hw, bind, Except.bind] at h
          | ok put =>
              simp only [hv, hw, bind, Except.bind, orCrash_ok, Prod.mk.injEq,
                Except.ok.injEq] at h
              exact written (hw.trans (congrArg _ h.1))
  | output v =>
      cases h
      exact ⟨rfl, rfl, rfl⟩

/-! ## Every processor -/

theorem Registry.find?_standard_eq_some {name : String} {entry : Entry}
    (h : standard.find? name = some entry) : ∃ m : Mnemonic, name = m.name ∧ entry = builtIn m := by
  obtain ⟨handler, hl, -⟩ := Option.map_eq_some_iff.1 h
  obtain ⟨front, back, he, -⟩ := List.lookup_eq_some_iff.1 hl
  have hall : standard.handlers = Mnemonic.all.map fun m => (m.name, m.handler) := rfl
  have hmem : (name, handler) ∈ standard.handlers :=
    he ▸ List.mem_append_right front List.mem_cons_self
  rw [hall] at hmem
  obtain ⟨m, -, hm⟩ := List.mem_map.1 hmem
  obtain rfl : m.name = name := congrArg Prod.fst hm
  exact ⟨m, rfl, Option.some.inj (h.symm.trans (find?_standard m))⟩

/-- An instruction that is not one of the twenty changes nothing. -/
theorem Registry.execute_of_not_mnemonic {decoded : Decoded}
    (h : ∀ m : Mnemonic, decoded.mnemonic ≠ m.name) (layout : Layout) (cpu : Cpu) (world : World) :
    standard.execute layout cpu decoded world =
      (.error (.fault (.unknownInstruction decoded.mnemonic)), world) := by
  cases hf : standard.find? decoded.mnemonic with
  | none => simp only [execute, hf]
  | some entry =>
      obtain ⟨m, hm, -⟩ := find?_standard_eq_some hf
      exact (h m hm).elim

theorem Registry.execute_of_mnemonic {decoded : Decoded} {m : Mnemonic}
    (hm : decoded.mnemonic = m.name) (layout : Layout) (cpu : Cpu) (world : World) :
    standard.execute layout cpu decoded world =
      ((m.handler layout cpu decoded.arguments world).1.map fun next =>
          (if m.setsPc then next else next.advance).countCycle,
        (m.handler layout cpu decoded.arguments world).2) := by
  have hf : standard.find? decoded.mnemonic = some (builtIn m) := by
    rw [hm]
    exact find?_standard m
  simp only [execute, hf, builtIn]

/-- An instruction that completes has one of the twenty mnemonics, has found its effect and carried
it out. -/
theorem Registry.execute_eq_ok {layout : Layout} {cpu next : Cpu} {decoded : Decoded}
    {world after : World} (h : standard.execute layout cpu decoded world = (.ok next, after)) :
    ∃ (m : Mnemonic) (effect : Effect) (carried : Cpu), decoded.mnemonic = m.name ∧
      m.effect layout cpu world.memory.size decoded.arguments = .ok effect ∧
      effect.perform cpu world = (.ok carried, after) ∧
      next = (if m.setsPc then carried else carried.advance).countCycle := by
  cases hf : standard.find? decoded.mnemonic with
  | none => simp [execute, hf] at h
  | some entry =>
      obtain ⟨m, hm, -⟩ := find?_standard_eq_some hf
      simp only [execute_of_mnemonic hm, Mnemonic.handler_eq] at h
      cases he : m.effect layout cpu world.memory.size decoded.arguments with
      | error failure => simp [he, Except.map] at h
      | ok effect =>
          simp only [he] at h
          cases hp : effect.perform cpu world with
          | mk result reached =>
              cases result with
              | error failure => simp [hp, Except.map] at h
              | ok carried =>
                  simp only [hp, Except.map, Prod.mk.injEq, Except.ok.injEq] at h
                  obtain ⟨rfl, rfl⟩ := h
                  exact ⟨m, effect, carried, hm, he, hp, rfl⟩

/-- Every completed instruction counts as one cycle. -/
theorem Registry.cycles_of_execute {layout : Layout} {cpu next : Cpu} {decoded : Decoded}
    {world after : World} (h : standard.execute layout cpu decoded world = (.ok next, after)) :
    next.cycles = cpu.cycles + 1 := by
  obtain ⟨m, effect, carried, -, -, hp, rfl⟩ := execute_eq_ok h
  obtain ⟨-, hc, -⟩ := Effect.control_of_perform hp
  rw [← hc]
  cases m.setsPc <;> rfl

/-! ## Comparisons -/

/-- What a comparison with given arguments compares: a register and a second operand. -/
def Cpu.Compares (cpu : Cpu) (arguments : List String) (compared : Comparison) : Prop :=
  ∃ left right, arguments = [left, right] ∧ registerValue left cpu = .ok compared.left ∧
    resolveOperand right cpu = .ok compared.right

theorem Mnemonic.compares_of_effect {layout : Layout} {cpu : Cpu} {memorySize : Int}
    {arguments : List String} {effect : Effect}
    (h : Mnemonic.compare.effect layout cpu memorySize arguments = .ok effect) :
    ∃ compared, effect.comparison? = some compared ∧ cpu.Compares arguments compared := by
  by_cases hn : arguments.length = Mnemonic.compare.arity
  · obtain ⟨left, right, rfl⟩ := List.length_eq_two.1 hn
    simp only [Mnemonic.effect, bind, Except.bind] at h
    cases hr : Register.ofToken left with
    | error failure => simp [hr] at h
    | ok r =>
        cases hb : resolveOperand right cpu with
        | error failure => simp [hr, hb] at h
        | ok b =>
            cases ha : orCrash (φ := Fault) (cpu.read r) with
            | error failure => simp [hr, hb, ha] at h
            | ok a =>
                simp only [hr, hb, ha, pure, Except.pure, Except.ok.injEq] at h
                subst h
                refine ⟨_, rfl, left, right, rfl, ?_, hb⟩
                simp only [registerValue, hr, bind, Except.bind, ha]
  · simp [Mnemonic.effect_of_length_ne hn] at h

theorem Mnemonic.comparison?_of_effect {m : Mnemonic} (hm : m ≠ .compare) {layout : Layout}
    {cpu : Cpu} {memorySize : Int} {arguments : List String} {effect : Effect}
    (h : m.effect layout cpu memorySize arguments = .ok effect) : effect.comparison? = none := by
  have hy : Yields (fun effect => effect.comparison? = none) (fun _ => True)
      (m.effect layout cpu memorySize arguments) := by
    unfold Mnemonic.effect
    split
    case h_3 =>
      exact (Yields.any _).bind fun _ _ => (Yields.any _).bind fun _ _ =>
        (Yields.any _).bind fun _ _ => (Yields.any _).bind fun _ _ => rfl
    case h_2 =>
      exact (Yields.any _).bind fun _ _ => (Yields.any _).bind fun _ _ =>
        (Yields.any _).bind fun _ _ => rfl
    case h_1 | h_4 | h_5 | h_10 =>
      exact (Yields.any _).bind fun _ _ => (Yields.any _).bind fun _ _ => rfl
    case h_7 | h_9 => exact (Yields.any _).bind fun _ _ => rfl
    case h_8 =>
      split
      next => exact trivial
      next => exact (Yields.any _).bind fun _ _ => rfl
    case h_6 => exact (hm rfl).elim
    case h_11 => exact rfl
    case h_12 => exact trivial
  exact hy.of_ok h

/-- A completed comparison is on record, and every other instruction leaves the record alone. -/
theorem Registry.comparison_of_execute {layout : Layout} {cpu next : Cpu} {decoded : Decoded}
    {world after : World} (h : standard.execute layout cpu decoded world = (.ok next, after)) :
    (decoded.mnemonic = Mnemonic.compare.name ∧
      ∃ compared, next.comparison = some compared ∧ cpu.Compares decoded.arguments compared) ∨
    (decoded.mnemonic ≠ Mnemonic.compare.name ∧ next.comparison = cpu.comparison) := by
  obtain ⟨m, effect, carried, hm, he, hp, rfl⟩ := execute_eq_ok h
  obtain ⟨-, -, hc⟩ := Effect.control_of_perform hp
  have hn : ((if m.setsPc then carried else carried.advance).countCycle).comparison =
      carried.comparison := by
    cases m.setsPc <;> rfl
  rw [hn, hc, hm]
  by_cases hcompare : m = .compare
  · subst hcompare
    obtain ⟨compared, hr, hv⟩ := Mnemonic.compares_of_effect he
    exact .inl ⟨rfl, compared, by rw [hr]; rfl, hv⟩
  · refine .inr ⟨fun e => hcompare (Mnemonic.name_injective e), ?_⟩
    rw [Mnemonic.comparison?_of_effect hcompare he]
    rfl

/-! ## Commands -/

namespace Command

/-- A command sets the program counter exactly if its effect does. -/
theorem setsPc_of_effect {command : Command} {layout : Layout} {cpu : Cpu} {memorySize : Int}
    {effect : Effect} (h : command.effect layout cpu memorySize = .ok effect) :
    effect.target?.isSome = command.mnemonic.setsPc := by
  have hy : Yields (fun effect => effect.target?.isSome = command.mnemonic.setsPc) (fun _ => True)
      (command.effect layout cpu memorySize) := by
    cases command with
    | load | store | branch => exact (Yields.any _).bind fun _ _ => rfl
    | branchIf relation label =>
        simp only [Command.effect]
        split
        next => exact trivial
        next => exact (Yields.any _).bind fun _ _ => rfl
    | combine | move | moveNot | compare | input | output | halt => exact rfl
  exact hy.of_ok h

theorem execute_eq_ok {command : Command} {layout : Layout} {cpu next : Cpu} {world after : World}
    (h : command.execute layout cpu world = (.ok next, after)) :
    ∃ effect carried, command.effect layout cpu world.memory.size = .ok effect ∧
      effect.perform cpu world = (.ok carried, after) ∧ next = command.retire carried := by
  cases he : command.effect layout cpu world.memory.size with
  | error failure => simp [execute_of_failure he] at h
  | ok effect =>
      rw [execute_of_effect he] at h
      cases hp : effect.perform cpu world with
      | mk result reached =>
          cases result with
          | error failure => simp [hp, Except.map] at h
          | ok carried =>
              simp only [hp, Except.map, Prod.mk.injEq, Except.ok.injEq] at h
              obtain ⟨rfl, rfl⟩ := h
              exact ⟨effect, carried, rfl, hp, rfl⟩

end Command

end RegisterMachine
