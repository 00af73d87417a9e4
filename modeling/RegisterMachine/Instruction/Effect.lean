import RegisterMachine.Console
import RegisterMachine.Instruction.Mnemonic
import RegisterMachine.Instruction.Operand
import RegisterMachine.Memory
import RegisterMachine.Program

/-!
# Effects

An instruction executes in two stages. First its arguments are resolved, from left to right, in
the state before the instruction; nothing changes, and the first argument that cannot be resolved
decides the fault. Then the effect so found is carried out. Of the effects only the reading of
input can still fault.
-/

namespace RegisterMachine

structure World where
  memory : Memory
  console : Console

/-- What an instruction does once its arguments are resolved. -/
inductive Effect where
  | set (r : Register) (v : Int)
  | load (r : Register) (address : Int)
  | store (address v : Int)
  | compare (left right : Int)
  | jump (target : Int)
  | input (r : Register)
  | output (v : Int)
  deriving DecidableEq, Repr

def inputPrompt : String := "> "

def resolveLabel (label : String) (layout : Layout) : Except (Failure Fault) Int :=
  match layout.labels.find? label with
  | some target => .ok target
  | none => .error (.fault (.unknownLabel label))

/-- The effect of an instruction in a state, with its arguments resolved. A number of arguments
that is not the mnemonic's arity is a fault whatever the arguments are. -/
def Mnemonic.effect (m : Mnemonic) (layout : Layout) (cpu : Cpu) (memorySize : Int)
    (arguments : List String) : Except (Failure Fault) Effect :=
  match m, arguments with
  | .load, [destination, address] => do
      let r ← Register.ofToken destination
      return .load r (← resolveAddress address cpu memorySize)
  | .store, [source, address] => do
      let r ← Register.ofToken source
      let a ← resolveAddress address cpu memorySize
      return .store a (← orCrash (cpu.read r))
  | .combine op, [destination, left, right] => do
      let r ← Register.ofToken destination
      let s ← Register.ofToken left
      let b ← resolveOperand right cpu
      let a ← orCrash (cpu.read s)
      return .set r (op.eval a b)
  | .move, [destination, source] => do
      let r ← Register.ofToken destination
      return .set r (← resolveOperand source cpu)
  | .moveNot, [destination, source] => do
      let r ← Register.ofToken destination
      return .set r (Word.bitNot (← resolveOperand source cpu))
  | .compare, [left, right] => do
      let r ← Register.ofToken left
      let b ← resolveOperand right cpu
      return .compare (← orCrash (cpu.read r)) b
  | .branch, [label] => do
      return .jump (← resolveLabel label layout)
  | .branchIf relation, [label] =>
      match cpu.comparison with
      | none => .error (.fault (.noComparison m.name))
      | some compared => do
          let target ← resolveLabel label layout
          return .jump
            (if relation.holds compared.left compared.right then target else cpu.pc + 1)
  | .input, [destination] => do
      return .input (← Register.ofToken destination)
  | .output, [source] => do
      return .output (← orCrash (checkWritable (← registerValue source cpu)))
  | .halt, [] => .ok (.jump layout.length)
  | _, _ => .error (.fault (.arity m.name m.arity arguments.length))

def World.readWord (world : World) : Except (Failure Fault) Int × World :=
  let (line, console) := world.console.readLine inputPrompt
  ((match line with
    | none => .error (.fault .badInput)
    | some line => wordOr .badInput line.toList),
   { world with console })

/-- Carries out an effect. The program counter moves only under a jump. -/
def Effect.perform (effect : Effect) (cpu : Cpu) (world : World) :
    Except (Failure Fault) Cpu × World :=
  match effect with
  | .set r v => (orCrash (cpu.write r v), world)
  | .load r address => (orCrash (world.memory.read address >>= cpu.write r), world)
  | .store address v =>
      match world.memory.write address v with
      | .ok memory => (.ok cpu, { world with memory })
      | .error reason => (.error (.crash reason), world)
  | .compare left right => (.ok (cpu.compare left right), world)
  | .jump target => (.ok (cpu.jump target), world)
  | .input r =>
      let (read, world) := world.readWord
      (read >>= fun v => orCrash (cpu.write r v), world)
  | .output v =>
      (.ok cpu, { world with console := world.console.writeLine (toString v) })

theorem Mnemonic.effect_of_length_ne
    {m : Mnemonic} {arguments : List String} (h : arguments.length ≠ m.arity)
    (layout : Layout) (cpu : Cpu) (memorySize : Int) :
    m.effect layout cpu memorySize arguments =
      .error (.fault (.arity m.name m.arity arguments.length)) := by
  unfold effect
  split <;> simp_all [arity]

end RegisterMachine
