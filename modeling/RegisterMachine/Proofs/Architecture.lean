import RegisterMachine.Proofs.Instruction.Execution
import RegisterMachine.Proofs.Word.Bits

/-!
# The architecture

The twenty instructions as a processor with words of 32 bits would have them: registers and cells
are bit vectors, every operation is one of bit vectors, and there is no wrapping, since nothing can
leave the range. A step reads its sources in the state that it starts from.

Only the operands of a comparison are kept as signed numbers, because a state may have been given
others than words.
-/

namespace RegisterMachine.Architecture

structure State where
  registers : Register → BitVec 32
  pc : Int
  comparison : Option Comparison
  cycles : Int
  memory : Array (BitVec 32)
  console : Console

namespace State

def set (s : State) (r : Register) (x : BitVec 32) : State :=
  { s with registers := fun q => if q = r then x else s.registers q }

/-- The end of an instruction that goes on at a program counter. -/
def goTo (s : State) (target : Int) : State :=
  { s with pc := target, cycles := s.cycles + 1 }

def next (s : State) : State :=
  s.goTo (s.pc + 1)

def operand (s : State) : Source → BitVec 32
  | .register r => s.registers r
  | .literal v => Word.bits v

def address (s : State) : Place → Int
  | .indirect r => (s.registers r).toInt
  | .direct a => a

/-- The index of the cell at a place, if there is such a cell. -/
def cell? (s : State) (place : Place) : Option Nat :=
  if 0 ≤ s.address place ∧ s.address place < s.memory.size then some (s.address place).toNat
  else none

end State

/-- The result of an operation on two words. A shift counts modulo 32, and the one to the right
keeps the sign. -/
def combine : BinaryOp → BitVec 32 → BitVec 32 → BitVec 32
  | .add, x, y => x + y
  | .sub, x, y => x - y
  | .and, x, y => x &&& y
  | .orr, x, y => x ||| y
  | .eor, x, y => x ^^^ y
  | .lsl, x, y => x <<< (y.toNat % 32)
  | .lsr, x, y => x.sshiftRight (y.toNat % 32)

/-- The condition of a branch, on the compared values as signed numbers. -/
def Condition : Relation → Int → Int → Prop
  | .equal, a, b => a = b
  | .notEqual, a, b => a ≠ b
  | .greater, a, b => b < a
  | .less, a, b => a < b

theorem holds_iff (relation : Relation) (a b : Int) :
    relation.holds a b = true ↔ Condition relation a b := by
  cases relation <;> exact decide_eq_true_iff

instance (relation : Relation) (a b : Int) : Decidable (Condition relation a b) :=
  decidable_of_iff _ (holds_iff relation a b)

/-- Asks for a line of input, takes it and reads a word from it. -/
def input? (console : Console) : Option (BitVec 32 × Console) :=
  match console.pending with
  | [] => none
  | line :: rest =>
      match Word.ofText line.toList with
      | .ok (some v) =>
          some (Word.bits v,
            { pending := rest, shown := console.shown.push (.prompt inputPrompt) })
      | _ => none

/-- The state after a command, if the command can be carried out. -/
def step (layout : Layout) (s : State) : Command → Option State
  | .load r place => do
      let i ← s.cell? place
      let x ← s.memory[i]?
      return (s.set r x).next
  | .store r place => do
      let i ← s.cell? place
      return { s with memory := s.memory.setIfInBounds i (s.registers r) }.next
  | .combine op d r source => some (s.set d (combine op (s.registers r) (s.operand source))).next
  | .move d source => some (s.set d (s.operand source)).next
  | .moveNot d source => some (s.set d (~~~s.operand source)).next
  | .compare r source =>
      let compared := { left := (s.registers r).toInt, right := (s.operand source).toInt }
      some { s with comparison := some compared }.next
  | .branch label => do return s.goTo (← layout.labels.find? label)
  | .branchIf relation label => do
      let compared ← s.comparison
      let target ← layout.labels.find? label
      return if Condition relation compared.left compared.right then s.goTo target else s.next
  | .input d => do
      let (x, console) ← input? s.console
      return ({ s with console }.set d x).next
  | .output r =>
      some { s with console := s.console.writeLine (toString (s.registers r).toInt) }.next
  | .halt => some (s.goTo layout.length)

/-! ## What a step leaves as it was -/

def destination? : Command → Option Register
  | .load d _ | .combine _ d .. | .move d _ | .moveNot d _ | .input d => some d
  | .store .. | .compare .. | .branch _ | .branchIf .. | .output _ | .halt => none

def storedCell? (s : State) : Command → Option Nat
  | .store _ place => s.cell? place
  | _ => none

/-- What a command may change from one state to another. -/
structure Frame (command : Command) (s t : State) : Prop where
  registers : ∀ r, destination? command ≠ some r → t.registers r = s.registers r
  size : t.memory.size = s.memory.size
  memory : ∀ i, storedCell? s command ≠ some i → t.memory[i]? = s.memory[i]?
  comparison : command.mnemonic ≠ .compare → t.comparison = s.comparison
  console : command.mnemonic ≠ .input → command.mnemonic ≠ .output → t.console = s.console
  pc : command.mnemonic.setsPc = false → t.pc = s.pc + 1
  cycles : t.cycles = s.cycles + 1

theorem State.registers_set_of_ne (s : State) {r q : Register} (x : BitVec 32) (h : q ≠ r) :
    (s.set r x).registers q = s.registers q :=
  if_neg h

theorem frame_set (command : Command) (s : State) (d : Register) (x : BitVec 32)
    (hd : destination? command = some d) : Frame command s (s.set d x).next where
  registers _ hr := s.registers_set_of_ne x fun h => hr (h ▸ hd)
  size := rfl
  memory _ _ := rfl
  comparison _ := rfl
  console _ _ := rfl
  pc _ := rfl
  cycles := rfl

theorem step_frame {layout : Layout} {s t : State} {command : Command}
    (h : step layout s command = some t) : Frame command s t := by
  cases command with
  | load d place =>
      simp only [step, Option.bind_eq_bind, Option.bind_eq_some_iff, Option.pure_def,
        Option.some.injEq] at h
      obtain ⟨i, _, x, _, rfl⟩ := h
      exact frame_set _ s d x rfl
  | store r place =>
      simp only [step, Option.bind_eq_bind, Option.bind_eq_some_iff, Option.pure_def,
        Option.some.injEq] at h
      obtain ⟨i, hi, rfl⟩ := h
      refine ⟨fun _ _ => rfl, Array.size_setIfInBounds, ?_, fun _ => rfl, fun _ _ => rfl,
        fun _ => rfl, rfl⟩
      intro j hj
      have hij : i ≠ j := fun e => hj (e ▸ hi)
      exact Array.getElem?_setIfInBounds_ne hij
  | combine op d r source =>
      cases h
      exact frame_set _ s d _ rfl
  | move d source =>
      cases h
      exact frame_set _ s d _ rfl
  | moveNot d source =>
      cases h
      exact frame_set _ s d _ rfl
  | compare r source =>
      cases h
      exact ⟨fun _ _ => rfl, rfl, fun _ _ => rfl, fun hc => (hc rfl).elim, fun _ _ => rfl,
        fun _ => rfl, rfl⟩
  | branch label =>
      simp only [step, Option.bind_eq_bind, Option.bind_eq_some_iff, Option.pure_def,
        Option.some.injEq] at h
      obtain ⟨target, _, rfl⟩ := h
      exact ⟨fun _ _ => rfl, rfl, fun _ _ => rfl, fun _ => rfl, fun _ _ => rfl, nofun, rfl⟩
  | branchIf relation label =>
      simp only [step, Option.bind_eq_bind, Option.bind_eq_some_iff, Option.pure_def,
        Option.some.injEq] at h
      obtain ⟨compared, _, target, _, rfl⟩ := h
      refine ⟨?_, ?_, ?_, ?_, ?_, nofun, ?_⟩ <;> split <;> first | rfl | (intros; rfl)
  | input d =>
      simp only [step, Option.bind_eq_bind, Option.bind_eq_some_iff, Option.pure_def,
        Option.some.injEq] at h
      obtain ⟨⟨x, console⟩, _, rfl⟩ := h
      exact ⟨(frame_set _ s d x rfl).registers, rfl, fun _ _ => rfl, fun _ => rfl,
        fun hi => (hi rfl).elim, fun _ => rfl, rfl⟩
  | output r =>
      cases h
      exact ⟨fun _ _ => rfl, rfl, fun _ _ => rfl, fun _ => rfl, fun _ ho => (ho rfl).elim,
        fun _ => rfl, rfl⟩
  | halt =>
      cases h
      exact ⟨fun _ _ => rfl, rfl, fun _ _ => rfl, fun _ => rfl, fun _ _ => rfl, nofun, rfl⟩

end RegisterMachine.Architecture
