import RegisterMachine.Proofs.Architecture
import RegisterMachine.Proofs.Instruction.Written

/-!
# The machine refines the architecture

The registry computes with integers of any size and wraps what it puts into a register or a cell.
Seen through the bits of its words, what it does is a step of the architecture, and it succeeds
exactly where the architecture has a step.
-/

namespace RegisterMachine.Architecture

def State.of (cpu : Cpu) (world : World) : State :=
  { registers := fun r => Word.bits (cpu.value r)
    pc := cpu.pc
    comparison := cpu.comparison
    cycles := cpu.cycles
    memory := world.memory.cells.map Word.bits
    console := world.console }

theorem of_put {cpu : Cpu} (hc : cpu.HoldsWords) (r : Register) (v : Int) (world : World) :
    State.of (cpu.put r v) world = (State.of cpu world).set r (Word.bits v) := by
  unfold State.of State.set
  congr 1
  funext q
  by_cases hq : q = r
  · rw [if_pos hq, hq, Cpu.value_put_self hc, Word.bits_wrap]
  · rw [if_neg hq, Cpu.value_put_of_ne cpu hq]

theorem operand_of (source : Source) (cpu : Cpu) (world : World) :
    (State.of cpu world).operand source = Word.bits (source.value cpu) := by
  cases source <;> rfl

theorem address_of {cpu : Cpu} (hc : cpu.HoldsWords) (place : Place) (world : World) :
    (State.of cpu world).address place = place.address cpu := by
  cases place with
  | indirect r => exact Word.toInt_bits_of_inRange (hc.inRange_value r)
  | direct a => rfl

theorem size_of (cpu : Cpu) (world : World) :
    (State.of cpu world).memory.size = world.memory.size :=
  Array.size_map

/-- A place is in bounds for the architecture exactly if it is for the machine. -/
theorem cell?_of {cpu : Cpu} (hc : cpu.HoldsWords) (place : Place) (world : World) :
    (∃ a, place.locate cpu world.memory.size = .ok a ∧ world.memory.inBounds a = true ∧
      (State.of cpu world).cell? place = some a.toNat) ∨
    (∃ failure, place.locate cpu world.memory.size = .error failure ∧
      (State.of cpu world).cell? place = none) := by
  unfold State.cell? Place.locate
  rw [address_of hc, size_of]
  by_cases hb : 0 ≤ place.address cpu ∧ place.address cpu < world.memory.size
  · refine .inl ⟨place.address cpu, ?_, Memory.inBounds_iff.2 hb, if_pos hb⟩
    exact if_neg (by simpa using hb)
  · refine .inr ⟨(Fault.addressRange (place.address cpu) world.memory.size).toFailure, ?_,
      if_neg hb⟩
    exact if_pos (by simp only [Bool.or_eq_true, decide_eq_true_eq]; omega)

theorem input?_of (world : World) :
    (∃ v console, world.readWord = (.ok v, { world with console }) ∧
      input? world.console = some (Word.bits v, console)) ∨
    (∃ failure, world.readWord.1 = .error failure ∧ input? world.console = none) := by
  unfold World.readWord Console.readLine input? wordOr
  cases world.console.pending with
  | nil => exact .inr ⟨_, rfl, rfl⟩
  | cons line rest =>
      simp only [List.head?_cons]
      cases Word.ofText line.toList with
      | error e => exact .inr ⟨_, rfl, rfl⟩
      | ok v? =>
          cases v? with
          | none => exact .inr ⟨_, rfl, rfl⟩
          | some v => exact .inl ⟨v, _, rfl, rfl⟩

/-- A step of the architecture and an execution by the machine: both come to the same state, which
holds words, or neither succeeds. -/
def Agree : Option State → Except (Failure Fault) Cpu × World → Prop
  | some t, (.ok next, after) =>
      State.of next after = t ∧ next.HoldsWords ∧ after.memory.HoldsWords
  | none, (.error _, _) => True
  | _, _ => False

/-- The integer operation and the operation on bit vectors give the same bits. -/
theorem bits_eval (op : BinaryOp) {a : Int} (ha : Word.inRange a = true) (b : Int) :
    Word.bits (op.eval a b) = combine op (Word.bits a) (Word.bits b) := by
  cases op with
  | add => exact Word.bits_add a b
  | sub => exact Word.bits_sub a b
  | and => exact Word.bits_bitAnd a b
  | orr => exact Word.bits_bitOr a b
  | eor => exact Word.bits_bitXor a b
  | lsl => exact Word.bits_shiftLeft a b
  | lsr => exact Word.bits_shiftRight ha b

section
variable {cpu : Cpu} (hc : cpu.HoldsWords) {world : World} (hm : world.memory.HoldsWords)
  (layout : Layout)
include hc hm

/-- A command that puts a value into a register and does nothing else. -/
theorem agree_set {command : Command} {d : Register} {v : Int} {x : BitVec 32}
    (he : command.effect layout cpu world.memory.size = .ok (.set d v))
    (hp : command.mnemonic.setsPc = false) (hx : Word.bits v = x) :
    Agree (some ((State.of cpu world).set d x).next) (command.execute layout cpu world) := by
  rw [Command.execute_of_effect he]
  simp only [Effect.perform, hc.write_eq, orCrash_ok, Except.map]
  refine ⟨?_, (hc.put d v).retire command, hm⟩
  rw [← hx, ← of_put hc, Command.retire, hp]
  rfl

theorem agree_load (d : Register) (place : Place) :
    Agree (step layout (State.of cpu world) (.load d place))
      ((Command.load d place).execute layout cpu world) := by
  rcases cell?_of hc place world with ⟨a, hl, hb, hi⟩ | ⟨failure, hl, hi⟩
  · obtain ⟨v, hv, hr⟩ := Memory.read_of_inBounds hb
    have hx : (State.of cpu world).memory[a.toNat]? = some (Word.bits v) := by
      simp [State.of, hv]
    have he : (Command.load d place).effect layout cpu world.memory.size = .ok (.load d a) := by
      simp only [Command.effect, hl]
      rfl
    rw [Command.execute_of_effect he]
    simp only [step, hi, hx, Option.bind_some, bind, Except.bind, Effect.perform, hr, hc.write_eq,
      orCrash_ok, Except.map]
    refine ⟨?_, (hc.put d v).retire _, hm⟩
    exact congrArg State.next (of_put hc d v world)
  · have he : (Command.load d place).effect layout cpu world.memory.size = .error failure := by
      simp only [Command.effect, hl]
      rfl
    rw [Command.execute_of_failure he]
    simp only [step, hi]
    exact trivial

theorem agree_store (r : Register) (place : Place) :
    Agree (step layout (State.of cpu world) (.store r place))
      ((Command.store r place).execute layout cpu world) := by
  rcases cell?_of hc place world with ⟨a, hl, hb, hi⟩ | ⟨failure, hl, hi⟩
  · obtain ⟨memory, hw, hcells⟩ := Memory.write_of_inBounds hb (cpu.value r)
    have he : (Command.store r place).effect layout cpu world.memory.size =
        .ok (.store a (cpu.value r)) := by
      simp only [Command.effect, hl]
      rfl
    rw [Command.execute_of_effect he]
    simp only [step, hi, bind, Option.bind, Effect.perform, hw, Except.map]
    refine ⟨?_, hc.retire _, hm.write hw⟩
    simp only [State.of, hcells, Array.map_setIfInBounds, Word.bits_wrap]
    rfl
  · have he : (Command.store r place).effect layout cpu world.memory.size = .error failure := by
      simp only [Command.effect, hl]
      rfl
    rw [Command.execute_of_failure he]
    simp only [step, hi]
    exact trivial

/-- A command that jumps and does nothing else. -/
theorem agree_jump {command : Command} {target : Int}
    (he : command.effect layout cpu world.memory.size = .ok (.jump target))
    (hp : command.mnemonic.setsPc = true) :
    Agree (some ((State.of cpu world).goTo target)) (command.execute layout cpu world) := by
  rw [Command.execute_of_effect he]
  have hj : (cpu.jump target).HoldsWords := ⟨hc.length_eq, hc.inRange⟩
  refine ⟨?_, hj.retire command, hm⟩
  rw [Command.retire, hp]
  rfl

theorem agree_branch (label : String) :
    Agree (step layout (State.of cpu world) (.branch label))
      ((Command.branch label).execute layout cpu world) := by
  cases hl : layout.labels.find? label with
  | some target =>
      have he : (Command.branch label).effect layout cpu world.memory.size =
          .ok (.jump target) := by
        simp only [Command.effect, resolveLabel, hl]
        rfl
      simp only [step, hl]
      exact agree_jump hc hm layout he rfl
  | none =>
      have he : (Command.branch label).effect layout cpu world.memory.size =
          .error (.fault (.unknownLabel label)) := by
        simp only [Command.effect, resolveLabel, hl]
        rfl
      rw [Command.execute_of_failure he]
      simp only [step, hl]
      exact trivial

theorem agree_branchIf (relation : Relation) (label : String) :
    Agree (step layout (State.of cpu world) (.branchIf relation label))
      ((Command.branchIf relation label).execute layout cpu world) := by
  cases hcmp : cpu.comparison with
  | none =>
      have he : (Command.branchIf relation label).effect layout cpu world.memory.size =
          .error (.fault (.noComparison relation.branchName)) := by
        simp only [Command.effect, hcmp]
      rw [Command.execute_of_failure he]
      simp only [step, State.of, hcmp]
      exact trivial
  | some compared =>
      cases hl : layout.labels.find? label with
      | none =>
          have he : (Command.branchIf relation label).effect layout cpu world.memory.size =
              .error (.fault (.unknownLabel label)) := by
            simp only [Command.effect, hcmp, resolveLabel, hl]
            rfl
          rw [Command.execute_of_failure he]
          simp only [step, State.of, hcmp, hl]
          exact trivial
      | some target =>
          have he : (Command.branchIf relation label).effect layout cpu world.memory.size =
              .ok (.jump (if relation.holds compared.left compared.right then target
                else cpu.pc + 1)) := by
            simp only [Command.effect, hcmp, resolveLabel, hl]
            rfl
          have ha := agree_jump hc hm layout he rfl
          have hs : (State.of cpu world).comparison = some compared := hcmp
          simp only [step, hs, hl, Option.bind_eq_bind, Option.bind_some, Option.pure_def]
          by_cases hr : Condition relation compared.left compared.right
          · rw [if_pos ((holds_iff _ _ _).2 hr)] at ha
            rw [if_pos hr]
            exact ha
          · rw [if_neg fun h => hr ((holds_iff _ _ _).1 h)] at ha
            rw [if_neg hr]
            exact ha

theorem agree_input (d : Register) :
    Agree (step layout (State.of cpu world) (.input d))
      ((Command.input d).execute layout cpu world) := by
  rw [Command.execute_of_effect rfl]
  rcases input?_of world with ⟨v, console, hr, hi⟩ | ⟨failure, hr, hi⟩
  · simp only [step, State.of, hi, Option.bind_some, Option.pure_def, Effect.perform, hr, bind,
      Except.bind, hc.write_eq, orCrash_ok, Except.map]
    refine ⟨?_, (hc.put d v).retire _, hm⟩
    exact congrArg State.next (of_put hc d v { world with console })
  · simp only [step, State.of, hi, Effect.perform, hr]
    exact trivial

theorem agree_compare (r : Register) {source : Source} (hs : source.HoldsWord) :
    Agree (step layout (State.of cpu world) (.compare r source))
      ((Command.compare r source).execute layout cpu world) := by
  have hr : ((State.of cpu world).registers r).toInt = cpu.value r :=
    Word.toInt_bits_of_inRange (hc.inRange_value r)
  have ho : ((State.of cpu world).operand source).toInt = source.value cpu := by
    rw [operand_of]
    exact Word.toInt_bits_of_inRange (Source.inRange_value hs hc)
  have hn : (cpu.compare (cpu.value r) (source.value cpu)).HoldsWords :=
    ⟨hc.length_eq, hc.inRange⟩
  rw [Command.execute_of_effect rfl]
  simp only [step, hr, ho]
  exact ⟨rfl, hn.retire _, hm⟩

theorem agree_output (r : Register) :
    Agree (step layout (State.of cpu world) (.output r))
      ((Command.output r).execute layout cpu world) := by
  have hv : (Word.bits (cpu.value r)).toInt = cpu.value r :=
    Word.toInt_bits_of_inRange (hc.inRange_value r)
  rw [Command.execute_of_effect rfl]
  refine ⟨?_, hc.retire _, hm⟩
  simp only [State.of, hv]
  rfl

theorem execute_agree {command : Command} (hw : command.HoldsWords) :
    Agree (step layout (State.of cpu world) command) (command.execute layout cpu world) := by
  cases command with
  | load d place => exact agree_load hc hm layout d place
  | store r place => exact agree_store hc hm layout r place
  | combine op d r source =>
      refine agree_set hc hm layout rfl rfl ?_
      rw [bits_eval op (hc.inRange_value r), operand_of]
      rfl
  | move d source => exact agree_set hc hm layout rfl rfl (operand_of source cpu world).symm
  | moveNot d source =>
      refine agree_set hc hm layout rfl rfl ?_
      rw [Word.bits_bitNot, operand_of]
  | compare r source => exact agree_compare hc hm layout r hw
  | branch label => exact agree_branch hc hm layout label
  | branchIf relation label => exact agree_branchIf hc hm layout relation label
  | input d => exact agree_input hc hm layout d
  | output r => exact agree_output hc hm layout r
  | halt => exact agree_jump hc hm layout rfl rfl

/-- Each success of the registry is a step of the architecture that leaves everything else as it
was, each step of the architecture is a success of the registry, and each command can be asked
for. -/
theorem execute_refines_step {decoded : Decoded} {m : Mnemonic}
    (hd : decoded.mnemonic = m.name) :
    (∀ next after, Registry.standard.execute layout cpu decoded world = (.ok next, after) →
      next.HoldsWords ∧ after.memory.HoldsWords ∧
        ∃ command, Command.ofTokens m decoded.arguments = .ok command ∧
          step layout (State.of cpu world) command = some (State.of next after) ∧
          Frame command (State.of cpu world) (State.of next after)) ∧
    (∀ command t, Command.ofTokens m decoded.arguments = .ok command →
      step layout (State.of cpu world) command = some t →
        ∃ next after, Registry.standard.execute layout cpu decoded world = (.ok next, after) ∧
          State.of next after = t) ∧
    (∀ command : Command, command.HoldsWords → command.mnemonic = m →
      Command.ofTokens m command.tokens = .ok command) := by
  refine ⟨?_, ?_, ?_⟩
  · intro next after h
    cases ht : Command.ofTokens m decoded.arguments with
    | error failure =>
        rw [Registry.execute_of_unread hc hd layout world ht] at h
        cases h
    | ok command =>
        have ha := execute_agree hc hm layout ((Command.ofTokens_yields _ _).of_ok ht)
        rw [Registry.execute_of_command hc hd layout world ht] at h
        rw [h] at ha
        cases hs : step layout (State.of cpu world) command with
        | none =>
            rw [hs] at ha
            exact ha.elim
        | some t =>
            rw [hs] at ha
            obtain ⟨rfl, hn, hm'⟩ := ha
            exact ⟨hn, hm', command, rfl, hs, step_frame hs⟩
  · intro command t ht hs
    have ha := execute_agree hc hm layout ((Command.ofTokens_yields _ _).of_ok ht)
    rw [hs] at ha
    rw [Registry.execute_of_command hc hd layout world ht]
    cases hr : command.execute layout cpu world with
    | mk result after =>
        rw [hr] at ha
        cases result with
        | error failure => exact ha.elim
        | ok next => exact ⟨next, after, rfl, ha.1⟩
  · rintro command hw rfl
    exact Command.ofTokens_tokens hw

end

/-- A shift to the right by a negative count, of a register into itself. -/
theorem execute_refines_step_negative_shift :
    let decoded : Decoded :=
      { mnemonic := "LSR", arguments := ["R1", "R1", "#-1"], raw := "LSR R1, R1, #-1" }
    let world : World := { memory := Memory.standard, console := {} }
    ∃ next after,
      Registry.standard.execute { length := 1 } (Cpu.initial.put ⟨1, by decide⟩ Word.least)
          decoded world = (.ok next, after) ∧
        (State.of next after).registers ⟨1, by decide⟩ = 0xFFFFFFFF#32 ∧
        (State.of next after).pc = 1 := by
  intro decoded world
  have hc : (Cpu.initial.put ⟨1, by decide⟩ Word.least).HoldsWords :=
    Cpu.holdsWords_initial.put _ _
  have hm : world.memory.HoldsWords :=
    Memory.holdsWords_zeroed Memory.standardSize (by decide) (by decide)
  have hd : decoded.mnemonic = (Mnemonic.combine .lsr).name := rfl
  obtain ⟨next, after, he, ht⟩ := (execute_refines_step hc hm { length := 1 } hd).2.1
    (.combine .lsr ⟨1, by decide⟩ ⟨1, by decide⟩ (.literal (-1))) _ rfl rfl
  refine ⟨next, after, he, ?_, ?_⟩
  · rw [ht]
    decide
  · rw [ht]
    rfl

end RegisterMachine.Architecture
