import RegisterMachine.Instruction.Decoded
import RegisterMachine.Instruction.Effect

/-!
# The instruction registry

A table from mnemonics to handlers, and beside it the set of mnemonics whose handlers set the
program counter. They are filled with the twenty instructions and then frozen; while they are not
frozen, mnemonics that are lacking can be added, and none is ever replaced.
-/

namespace RegisterMachine

/-- Executes an instruction, all but the advance of the program counter and of the cycle count. -/
abbrev Handler :=
  Layout → Cpu → List String → World → Except (Failure Fault) Cpu × World

/-- The handler of a built-in instruction. It counts the arguments before it looks at them. -/
def Mnemonic.handler (m : Mnemonic) : Handler := fun layout cpu arguments world =>
  let resolved := do
    expectArguments m.name arguments m.arity
    m.effect layout cpu world.memory.size arguments
  match resolved with
  | .error failure => (.error failure, world)
  | .ok effect => effect.perform cpu world

theorem Mnemonic.handler_eq (m : Mnemonic) (layout : Layout) (cpu : Cpu) (arguments : List String)
    (world : World) :
    m.handler layout cpu arguments world =
      match m.effect layout cpu world.memory.size arguments with
      | .error failure => (.error failure, world)
      | .ok effect => effect.perform cpu world := by
  by_cases h : arguments.length = m.arity
  · simp [handler, expectArguments, h, bind, Except.bind]
  · have hn : ¬(arguments.length : Int) = m.arity := fun he => h (Int.ofNat_inj.1 he)
    simp [handler, expectArguments, hn, bind, Except.bind, effect_of_length_ne h]

namespace Registry

/-- A mnemonic with its handler. `setsPc` tells that the handler sets the program counter. -/
structure Entry where
  mnemonic : String
  handler : Handler
  setsPc : Bool := false

inductive Refusal where
  | frozen
  | taken (mnemonic : String)
  deriving DecidableEq, Repr

def Refusal.message : Refusal → String
  | .frozen => "Cannot register handlers: registry is frozen"
  | .taken mnemonic => s!"Handler already registered: {mnemonic}"

end Registry

/-- The handlers by their mnemonics, and the mnemonics after which the program counter does not
advance. -/
structure Registry where
  handlers : List (String × Handler) := []
  pcSetters : List String := []
  frozen : Bool := false

namespace Registry

def has (registry : Registry) (mnemonic : String) : Bool :=
  (registry.handlers.lookup mnemonic).isSome

def find? (registry : Registry) (mnemonic : String) : Option Entry :=
  (registry.handlers.lookup mnemonic).map fun handler =>
    { mnemonic, handler, setsPc := registry.pcSetters.contains mnemonic }

def add (registry : Registry) (entry : Entry) : Registry :=
  { registry with
    handlers := registry.handlers ++ [(entry.mnemonic, entry.handler)]
    pcSetters :=
      if entry.setsPc then registry.pcSetters ++ [entry.mnemonic] else registry.pcSetters }

/-- Adds an entry. A frozen registry refuses every one, another those whose mnemonic it has. -/
def register (registry : Registry) (entry : Entry) : Except Refusal Registry :=
  if registry.frozen then .error .frozen
  else if registry.has entry.mnemonic then .error (.taken entry.mnemonic)
  else .ok (registry.add entry)

def freeze (registry : Registry) : Registry :=
  { registry with frozen := true }

def unfreeze (registry : Registry) : Registry :=
  { registry with frozen := false }

def builtIn (m : Mnemonic) : Entry :=
  { mnemonic := m.name, handler := m.handler, setsPc := m.setsPc }

/-- The frozen registry of the twenty instructions. -/
def standard : Registry :=
  freeze ((Mnemonic.all.map builtIn).foldl add {})

/-- Executes a decoded instruction: its handler, then the program counter, then the cycle count.
The world keeps what the handler did to it even if the instruction fails. -/
def execute (registry : Registry) (layout : Layout) (cpu : Cpu) (decoded : Decoded)
    (world : World) : Except (Failure Fault) Cpu × World :=
  match registry.find? decoded.mnemonic with
  | none => (.error (.fault (.unknownInstruction decoded.mnemonic)), world)
  | some entry =>
      let (result, world) := entry.handler layout cpu decoded.arguments world
      (result.map fun next => (if entry.setsPc then next else next.advance).countCycle, world)

theorem find?_standard (m : Mnemonic) : standard.find? m.name = some (builtIn m) := by
  rcases m with _ | _ | op | _ | _ | _ | _ | r | _ | _ | _ <;> (try cases op) <;> (try cases r) <;>
    rfl

/-- None of the twenty is refused, so they could as well have been registered one by one. -/
theorem register_builtIn :
    (Mnemonic.all.map builtIn).foldlM register {} = .ok standard.unfreeze := rfl

end Registry

end RegisterMachine
