import RegisterMachine.Proofs.Instruction.Execution

/-!
# Soundness of execution

A processor that fits a program still does so after an instruction of that program, and if the
instruction fails, it is for one of the reasons that instructions have. There is one lemma for each
stage: a command is resolved to a sound effect, a sound effect is carried out, and the counters move
on.
-/

namespace RegisterMachine

/-- A flag whose operands are machine words, and zero while it is not enabled. -/
structure ComparisonFlag.Sound (flag : ComparisonFlag) : Prop where
  inRange_left : Word.inRange flag.left = true
  inRange_right : Word.inRange flag.right = true
  zero_of_disabled : flag.enabled = false → flag.left = 0 ∧ flag.right = 0

theorem ComparisonFlag.sound_disabled : ComparisonFlag.Sound {} where
  inRange_left := by decide
  inRange_right := by decide
  zero_of_disabled _ := ⟨rfl, rfl⟩

structure Cpu.Fits (cpu : Cpu) (length : Int) : Prop where
  words : cpu.HoldsWords
  pc_nonneg : 0 ≤ cpu.pc
  pc_le : cpu.pc ≤ length
  cycles_nonneg : 0 ≤ cpu.cycles
  flag : cpu.flag.Sound

/-- A layout whose labels stand for addresses of the program or for its end. -/
def Layout.Bounded (layout : Layout) : Prop :=
  ∀ name target, layout.labels.find? name = some target → 0 ≤ target ∧ target ≤ layout.length

/-- An effect that can be carried out in a processor that fits. Only an instruction that sets the
program counter itself jumps. -/
def Effect.Sound (setsPc : Bool) (length memorySize : Int) : Effect → Prop
  | .set .. | .input _ | .output _ => setsPc = false
  | .load _ address | .store address _ =>
      setsPc = false ∧ 0 ≤ address ∧ address < memorySize
  | .compare left right =>
      setsPc = false ∧ Word.inRange left = true ∧ Word.inRange right = true
  | .jump target => setsPc = true ∧ 0 ≤ target ∧ target ≤ length

/-- A result of executing something in a world: a processor state with a property or a failure of
an instruction, and a memory of the same size that holds words. -/
structure Executed (P : Cpu → Prop) (world : World)
    (result : Except (Failure Fault) Cpu × World) : Prop where
  yields : Yields P Failure.OfInstruction result.1
  memory : result.2.memory.HoldsWords
  size_eq : result.2.memory.size = world.memory.size

/-! ## Processors that fit -/

namespace Cpu.Fits

theorem initial (length : Nat) : Cpu.initial.Fits length where
  words := Cpu.holdsWords_initial
  pc_nonneg := Int.le_refl 0
  pc_le := Int.natCast_nonneg length
  cycles_nonneg := Int.le_refl 0
  flag := ComparisonFlag.sound_disabled

variable {cpu : Cpu} {length : Int} (h : cpu.Fits length)
include h

theorem put (r : Register) (v : Int) : (cpu.put r v).Fits length :=
  ⟨h.words.put r v, h.pc_nonneg, h.pc_le, h.cycles_nonneg, h.flag⟩

theorem compare {left right : Int} (hl : Word.inRange left = true)
    (hr : Word.inRange right = true) : (cpu.compare left right).Fits length :=
  ⟨⟨h.words.length_eq, h.words.inRange⟩, h.pc_nonneg, h.pc_le, h.cycles_nonneg, hl, hr, nofun⟩

theorem jump {target : Int} (h0 : 0 ≤ target) (hl : target ≤ length) :
    (cpu.jump target).Fits length :=
  ⟨⟨h.words.length_eq, h.words.inRange⟩, h0, hl, h.cycles_nonneg, h.flag⟩

theorem countCycle : cpu.countCycle.Fits length :=
  ⟨⟨h.words.length_eq, h.words.inRange⟩, h.pc_nonneg, h.pc_le,
    Int.add_nonneg h.cycles_nonneg (by decide), h.flag⟩

theorem retire {command : Command} (hp : command.mnemonic.setsPc = false → cpu.pc < length) :
    (command.retire cpu).Fits length := by
  unfold Command.retire
  by_cases hs : command.mnemonic.setsPc = true
  · rw [if_pos hs]
    exact h.countCycle
  · rw [if_neg hs]
    have hlt : cpu.pc < length := hp (eq_false_of_ne_true hs)
    have h0 : 0 ≤ cpu.pc + 1 := Int.add_nonneg h.pc_nonneg (by decide)
    exact (h.jump h0 (Int.add_one_le_of_lt hlt)).countCycle

theorem restart : cpu.restart.Fits length :=
  ⟨⟨h.words.length_eq, h.words.inRange⟩, Int.le_refl 0, Int.le_trans h.pc_nonneg h.pc_le,
    Int.le_refl 0, ComparisonFlag.sound_disabled⟩

/-- The check behind each instruction accepts such a state. -/
theorem isValid : cpu.isValid (some length) = true :=
  isValid_iff.2 ⟨h.words, h.pc_nonneg, h.pc_le, h.cycles_nonneg⟩

end Cpu.Fits

/-! ## Resolving -/

theorem Place.locate_yields {place : Place} (hp : place.HoldsWord) {cpu : Cpu}
    (hc : cpu.HoldsWords) {memorySize : Int} (hs : Text.isWritable (memorySize - 1) = true) :
    Yields (fun a => 0 ≤ a ∧ a < memorySize) Failure.Reported
      (place.locate cpu memorySize) := by
  have hw : Text.isWritable (place.address cpu) = true :=
    Word.isWritable_of_inRange (Place.inRange_address hp hc)
  unfold locate
  rw [Fault.toFailure_addressRange hw hs]
  split
  next => exact trivial
  next hb =>
    simp only [Bool.or_eq_true, decide_eq_true_eq, not_or] at hb
    exact ⟨Int.not_lt.1 hb.1, Int.not_le.1 hb.2⟩

theorem resolveLabel_yields {layout : Layout} (hl : layout.Bounded) (label : String) :
    Yields (fun target => 0 ≤ target ∧ target ≤ layout.length) Failure.Reported
      (resolveLabel label layout) := by
  unfold resolveLabel
  split
  next target ht => exact hl label target ht
  next => exact trivial

theorem Command.effect_yields {command : Command} (hw : command.HoldsWords) {cpu : Cpu}
    {layout : Layout} (hc : cpu.Fits layout.length) (hlt : cpu.pc < layout.length)
    (hl : layout.Bounded) {memorySize : Int} (hs : Text.isWritable (memorySize - 1) = true) :
    Yields (Effect.Sound command.mnemonic.setsPc layout.length memorySize) Failure.Reported
      (command.effect layout cpu memorySize) := by
  cases command with
  | load r place => exact (Place.locate_yields hw hc.words hs).bind fun a ha => ⟨rfl, ha⟩
  | store r place => exact (Place.locate_yields hw hc.words hs).bind fun a ha => ⟨rfl, ha⟩
  | compare r source =>
      exact ⟨rfl, hc.words.inRange_value r, Source.inRange_value hw hc.words⟩
  | branch label => exact (resolveLabel_yields hl label).bind fun target ht => ⟨rfl, ht⟩
  | branchIf relation label =>
      simp only [effect]
      split
      next => exact trivial
      next compared _ =>
        refine (resolveLabel_yields hl label).bind fun target ht => ?_
        by_cases hr : relation.holds compared.left compared.right = true
        · rw [if_pos hr]
          exact ⟨rfl, ht⟩
        · rw [if_neg hr]
          exact ⟨rfl, Int.add_nonneg hc.pc_nonneg (by decide), Int.add_one_le_of_lt hlt⟩
  | halt => exact ⟨rfl, Int.le_trans hc.pc_nonneg hc.pc_le, Int.le_refl _⟩
  | combine | move | moveNot | input | output => exact rfl

/-! ## Carrying out -/

def Effect.InBounds (memorySize : Int) : Effect → Prop
  | .load _ address | .store address _ => 0 ≤ address ∧ address < memorySize
  | .set .. | .compare .. | .jump _ | .input _ | .output _ => True

theorem Effect.Sound.inBounds {effect : Effect} {setsPc : Bool} {length memorySize : Int}
    (h : effect.Sound setsPc length memorySize) : effect.InBounds memorySize := by
  cases effect with
  | load | store => exact h.2
  | set | compare | jump | input | output => trivial

/-- Of the effects only the reading of input can still fail. -/
theorem Effect.perform_completes {effect : Effect} {world : World}
    (hb : effect.InBounds world.memory.size) {cpu : Cpu} (h : cpu.HoldsWords)
    (hi : ∀ r, effect ≠ .input r) : ∃ next, (effect.perform cpu world).1 = .ok next := by
  cases effect with
  | set r v => exact ⟨_, by rw [perform, h.write_eq, orCrash_ok]⟩
  | load r address =>
      obtain ⟨v, -, hv⟩ := Memory.read_of_inBounds (Memory.inBounds_iff.2 hb)
      simp only [perform, hv, bind, Except.bind, h.write_eq, orCrash_ok]
      exact ⟨_, rfl⟩
  | store address v =>
      obtain ⟨memory, hw, -⟩ := Memory.write_of_inBounds (Memory.inBounds_iff.2 hb) v
      simp only [perform, hw]
      exact ⟨_, rfl⟩
  | compare left right | jump target | output v => exact ⟨_, rfl⟩
  | input r => exact (hi r rfl).elim

theorem World.readWord_yields (world : World) :
    Yields (Word.inRange · = true) Failure.OfInstruction world.readWord.1 := by
  have hf : Fault.badInput.OfInstruction := trivial
  unfold readWord Console.readLine
  cases world.console.pending with
  | nil => exact hf
  | cons line rest => exact wordOr_yields hf line.toList

theorem Effect.perform_spec {effect : Effect} {setsPc : Bool} {length : Int} {world : World}
    (he : effect.Sound setsPc length world.memory.size) {cpu : Cpu} (hc : cpu.Fits length)
    (hlt : cpu.pc < length) (hm : world.memory.HoldsWords) :
    Executed (fun next => next.Fits length ∧ (setsPc = false → next.pc < length)) world
      (effect.perform cpu world) := by
  cases effect with
  | set r v =>
      simp only [perform, hc.words.write_eq, orCrash_ok]
      exact ⟨⟨hc.put r v, fun _ => hlt⟩, hm, rfl⟩
  | load r address =>
      obtain ⟨v, -, hv⟩ := Memory.read_of_inBounds (Memory.inBounds_iff.2 he.2)
      simp only [perform, hv, bind, Except.bind, hc.words.write_eq, orCrash_ok]
      exact ⟨⟨hc.put r v, fun _ => hlt⟩, hm, rfl⟩
  | store address v =>
      obtain ⟨memory, hw, hcells⟩ := Memory.write_of_inBounds (Memory.inBounds_iff.2 he.2) v
      simp only [perform, hw]
      refine ⟨⟨hc, fun _ => hlt⟩, hm.write hw, ?_⟩
      simp only [Memory.size, hcells, Array.size_setIfInBounds]
  | compare left right => exact ⟨⟨hc.compare he.2.1 he.2.2, fun _ => hlt⟩, hm, rfl⟩
  | jump target =>
      refine ⟨⟨hc.jump he.2.1 he.2.2, fun hp => ?_⟩, hm, rfl⟩
      rw [he.1] at hp
      cases hp
  | input r =>
      refine ⟨?_, hm, rfl⟩
      refine world.readWord_yields.bind fun v _ => ?_
      rw [hc.words.write_eq]
      exact ⟨hc.put r v, fun _ => hlt⟩
  | output v => exact ⟨⟨hc, fun _ => hlt⟩, hm, rfl⟩

theorem Memory.isWritable_size (m : Memory) : Text.isWritable ((m.size : Int) - 1) = true := by
  have hn : 0 < m.size := m.nonempty
  have hi : (m.size : Int) ≤ 0x7FFFFFFFFFFFFFFF := m.indexed
  have hlt : ((m.size : Int) - 1).natAbs < Nat.pow 10 19 :=
    show _ < 10000000000000000000 by omega
  exact Text.isWritable_of_natAbs_lt_pow (by decide) hlt

section
variable {cpu : Cpu} {layout : Layout} (hc : cpu.Fits layout.length)
  (hlt : cpu.pc < layout.length) (hl : layout.Bounded) {world : World}
  (hm : world.memory.HoldsWords)
include hc hlt hl hm

theorem Command.execute_spec {command : Command} (hw : command.HoldsWords) :
    Executed (·.Fits layout.length) world (command.execute layout cpu world) := by
  have he := Command.effect_yields hw hc hlt hl world.memory.isWritable_size
  cases hr : command.effect layout cpu world.memory.size with
  | error failure =>
      have hf : failure.Reported := he.of_error hr
      rw [execute_of_failure hr]
      exact ⟨hf.ofInstruction, hm, rfl⟩
  | ok effect =>
      rw [execute_of_effect hr]
      have hp := Effect.perform_spec (he.of_ok hr) hc hlt hm
      refine ⟨?_, hp.memory, hp.size_eq⟩
      exact hp.yields.map fun next hn => hn.1.retire hn.2

theorem Registry.execute_spec {decoded : Decoded} {m : Mnemonic}
    (hd : decoded.mnemonic = m.name) :
    Executed (·.Fits layout.length) world (standard.execute layout cpu decoded world) := by
  have hy := Command.ofTokens_yields m decoded.arguments
  cases ht : Command.ofTokens m decoded.arguments with
  | error failure =>
      rw [execute_of_unread hc.words hd layout world ht]
      exact ⟨hy.of_error ht, hm, rfl⟩
  | ok command =>
      rw [execute_of_command hc.words hd layout world ht]
      exact Command.execute_spec hc hlt hl hm (hy.of_ok ht)

end

end RegisterMachine
