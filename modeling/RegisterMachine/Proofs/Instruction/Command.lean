import RegisterMachine.Instruction.Effect
import RegisterMachine.Proofs.Outcome
import RegisterMachine.Proofs.Storage

/-!
# Commands

Resolving an instruction is two things in a row. Its arguments are read, which looks at nothing but
their text; the command so found is then applied to a processor state, which looks at no text. A
fault of the first stage goes before every fault of the second.
-/

namespace RegisterMachine

inductive Source where
  | register (r : Register)
  | literal (v : Int)
  deriving DecidableEq, Repr

inductive Place where
  | indirect (r : Register)
  | direct (address : Int)
  deriving DecidableEq, Repr

inductive Command where
  | load (destination : Register) (place : Place)
  | store (source : Register) (place : Place)
  | combine (op : BinaryOp) (destination left : Register) (right : Source)
  | move (destination : Register) (source : Source)
  | moveNot (destination : Register) (source : Source)
  | compare (left : Register) (right : Source)
  | branch (label : String)
  | branchIf (relation : Relation) (label : String)
  | input (destination : Register)
  | output (source : Register)
  | halt
  deriving DecidableEq, Repr

/-! ## Reading the arguments -/

def Source.ofToken (token : String) : Except (Failure Fault) Source :=
  match token.toList with
  | '#' :: number => do return .literal (← wordOr (.literalForm token) number)
  | _ =>
      if namesRegister token then do return .register (← Register.ofToken token)
      else .error (.fault (.operandForm token))

def Place.ofToken (token : String) : Except (Failure Fault) Place :=
  if namesRegister token then do return .indirect (← Register.ofToken token)
  else do return .direct (← wordOr (.addressForm token) token.toList)

def Command.ofTokens (m : Mnemonic) (arguments : List String) :
    Except (Failure Fault) Command :=
  match m, arguments with
  | .load, [destination, address] => do
      return .load (← Register.ofToken destination) (← Place.ofToken address)
  | .store, [source, address] => do
      return .store (← Register.ofToken source) (← Place.ofToken address)
  | .combine op, [destination, left, right] => do
      return .combine op (← Register.ofToken destination) (← Register.ofToken left)
        (← Source.ofToken right)
  | .move, [destination, source] => do
      return .move (← Register.ofToken destination) (← Source.ofToken source)
  | .moveNot, [destination, source] => do
      return .moveNot (← Register.ofToken destination) (← Source.ofToken source)
  | .compare, [left, right] => do
      return .compare (← Register.ofToken left) (← Source.ofToken right)
  | .branch, [label] => .ok (.branch label)
  | .branchIf relation, [label] => .ok (.branchIf relation label)
  | .input, [destination] => do return .input (← Register.ofToken destination)
  | .output, [source] => do return .output (← Register.ofToken source)
  | .halt, [] => .ok .halt
  | _, _ => .error (.fault (.arity m.name m.arity arguments.length))

/-! ## Applying a command -/

def Source.value (source : Source) (cpu : Cpu) : Int :=
  match source with
  | .register r => cpu.value r
  | .literal v => v

def Place.address (place : Place) (cpu : Cpu) : Int :=
  match place with
  | .indirect r => cpu.value r
  | .direct address => address

def Place.locate (place : Place) (cpu : Cpu) (memorySize : Int) : Except (Failure Fault) Int :=
  if place.address cpu < 0 || memorySize ≤ place.address cpu then
    .error (Fault.addressRange (place.address cpu) memorySize).toFailure
  else .ok (place.address cpu)

def Relation.branchName (relation : Relation) : String :=
  (Mnemonic.branchIf relation).name

def Command.effect (command : Command) (layout : Layout) (cpu : Cpu) (memorySize : Int) :
    Except (Failure Fault) Effect :=
  match command with
  | .load r place => do return .load r (← place.locate cpu memorySize)
  | .store r place => do return .store (← place.locate cpu memorySize) (cpu.value r)
  | .combine op r s source => .ok (.set r (op.eval (cpu.value s) (source.value cpu)))
  | .move r source => .ok (.set r (source.value cpu))
  | .moveNot r source => .ok (.set r (Word.bitNot (source.value cpu)))
  | .compare r source => .ok (.compare (cpu.value r) (source.value cpu))
  | .branch label => do return .jump (← resolveLabel label layout)
  | .branchIf relation label =>
      match cpu.comparison with
      | none => .error (.fault (.noComparison relation.branchName))
      | some compared => do
          let target ← resolveLabel label layout
          return .jump
            (if relation.holds compared.left compared.right then target else cpu.pc + 1)
  | .input r => .ok (.input r)
  | .output r => .ok (.output (cpu.value r))
  | .halt => .ok (.jump layout.length)

/-! ## The two stages -/

section
variable {token : String}

theorem resolveOperand_of_literal {number : List Char} (h : token.toList = '#' :: number)
    (cpu : Cpu) : resolveOperand token cpu = wordOr (.literalForm token) number := by
  simp only [resolveOperand, h]

theorem Source.ofToken_of_literal {number : List Char} (h : token.toList = '#' :: number) :
    Source.ofToken token = (do return .literal (← wordOr (.literalForm token) number)) := by
  simp only [Source.ofToken, h]

variable (h : ¬∃ number, token.toList = '#' :: number)
include h

theorem resolveOperand_of_not_literal (cpu : Cpu) :
    resolveOperand token cpu =
      if namesRegister token then registerValue token cpu
      else .error (.fault (.operandForm token)) := by
  unfold resolveOperand
  split
  next number ht => exact (h ⟨number, ht⟩).elim
  next => rfl

theorem Source.ofToken_of_not_literal :
    Source.ofToken token =
      if namesRegister token then do return .register (← Register.ofToken token)
      else .error (.fault (.operandForm token)) := by
  unfold Source.ofToken
  split
  next number ht => exact (h ⟨number, ht⟩).elim
  next => rfl

end

section
variable {cpu : Cpu} (h : cpu.HoldsWords)
include h

theorem registerValue_eq (token : String) :
    registerValue token cpu = (do return cpu.value (← Register.ofToken token)) := by
  unfold registerValue
  congr 1
  funext r
  rw [h.read_eq]
  rfl

theorem resolveOperand_eq (token : String) :
    resolveOperand token cpu = (do return (← Source.ofToken token).value cpu) := by
  by_cases hl : ∃ number, token.toList = '#' :: number
  · obtain ⟨number, ht⟩ := hl
    rw [resolveOperand_of_literal ht, Source.ofToken_of_literal ht]
    simp only [bind_assoc, pure_bind]
    exact (bind_pure _).symm
  · rw [resolveOperand_of_not_literal hl, Source.ofToken_of_not_literal hl]
    by_cases hn : namesRegister token = true
    · rw [if_pos hn, if_pos hn, registerValue_eq h, bind_assoc]
      rfl
    · rw [if_neg hn, if_neg hn]
      rfl

theorem addressValue_eq (token : String) :
    addressValue token cpu = (do return (← Place.ofToken token).address cpu) := by
  unfold addressValue Place.ofToken
  split
  · rw [registerValue_eq h, bind_assoc]
    rfl
  · rw [bind_assoc]
    exact (bind_pure _).symm

theorem resolveAddress_eq (token : String) (memorySize : Int) :
    resolveAddress token cpu memorySize =
      (do (← Place.ofToken token).locate cpu memorySize) := by
  unfold resolveAddress
  rw [addressValue_eq h, bind_assoc]
  rfl

theorem checkWritable_value (r : Register) :
    checkWritable (cpu.value r) = .ok (cpu.value r) :=
  checkWritable_of_inRange (h.inRange_value r)

/-- An instruction is resolved by reading its arguments and applying the command they make. -/
theorem Mnemonic.effect_eq (m : Mnemonic) (layout : Layout) (memorySize : Int)
    (arguments : List String) :
    m.effect layout cpu memorySize arguments =
      (do (← Command.ofTokens m arguments).effect layout cpu memorySize) := by
  unfold effect Command.ofTokens
  split <;> first
    | rfl
    | simp only [resolveOperand_eq h, resolveAddress_eq h, registerValue_eq h, h.read_eq,
        checkWritable_value h, orCrash_ok, bind_assoc, pure_bind]
      rfl

end

/-! ## Commands that hold words -/

def Source.HoldsWord : Source → Prop
  | .register _ => True
  | .literal v => Word.inRange v = true

def Place.HoldsWord : Place → Prop
  | .indirect _ => True
  | .direct address => Word.inRange address = true

def Command.HoldsWords : Command → Prop
  | .load _ place | .store _ place => place.HoldsWord
  | .combine _ _ _ source | .move _ source | .moveNot _ source | .compare _ source =>
      source.HoldsWord
  | .branch _ | .branchIf .. | .input _ | .output _ | .halt => True

theorem Source.inRange_value {source : Source} (hs : source.HoldsWord) {cpu : Cpu}
    (hc : cpu.HoldsWords) : Word.inRange (source.value cpu) = true := by
  cases source with
  | register r => exact hc.inRange_value r
  | literal v => exact hs

theorem Place.inRange_address {place : Place} (hp : place.HoldsWord) {cpu : Cpu}
    (hc : cpu.HoldsWords) : Word.inRange (place.address cpu) = true := by
  cases place with
  | indirect r => exact hc.inRange_value r
  | direct address => exact hp

theorem wordOr_yields {fault : Fault} (hf : fault.OfInstruction) (text : List Char) :
    Yields (Word.inRange · = true) Failure.OfInstruction (wordOr fault text) := by
  unfold wordOr
  split
  next e _ => exact ⟨e, rfl⟩
  next => exact hf
  next v h => exact Word.inRange_of_ofText h

theorem Register.ofToken_yields (token : String) :
    Yields (fun _ => True) Failure.OfInstruction (Register.ofToken token) := by
  unfold Register.ofToken
  split
  next => exact trivial
  next digits _ =>
    split
    · exact ⟨_, rfl⟩
    · dsimp only
      split <;> exact trivial

theorem Source.ofToken_yields (token : String) :
    Yields Source.HoldsWord Failure.OfInstruction (Source.ofToken token) := by
  unfold Source.ofToken
  split
  next number _ =>
    have hf : (Fault.literalForm token).OfInstruction := trivial
    exact (wordOr_yields hf number).bind fun v hv => hv
  next =>
    split
    · exact (Register.ofToken_yields token).bind fun r _ => trivial
    · exact trivial

theorem Place.ofToken_yields (token : String) :
    Yields Place.HoldsWord Failure.OfInstruction (Place.ofToken token) := by
  unfold Place.ofToken
  split
  · exact (Register.ofToken_yields token).bind fun r _ => trivial
  · have hf : (Fault.addressForm token).OfInstruction := trivial
    exact (wordOr_yields hf token.toList).bind fun v hv => hv

theorem Command.ofTokens_yields (m : Mnemonic) (arguments : List String) :
    Yields Command.HoldsWords Failure.OfInstruction (Command.ofTokens m arguments) := by
  have withPlace (token address : String) (f : Register → Place → Command)
      (hf : ∀ r place, place.HoldsWord → (f r place).HoldsWords) :
      Yields Command.HoldsWords Failure.OfInstruction
        (do return f (← Register.ofToken token) (← Place.ofToken address)) :=
    (Register.ofToken_yields token).bind fun r _ => (Place.ofToken_yields address).bind (hf r)
  have withSource (token operand : String) (f : Register → Source → Command)
      (hf : ∀ r source, source.HoldsWord → (f r source).HoldsWords) :
      Yields Command.HoldsWords Failure.OfInstruction
        (do return f (← Register.ofToken token) (← Source.ofToken operand)) :=
    (Register.ofToken_yields token).bind fun r _ => (Source.ofToken_yields operand).bind (hf r)
  unfold Command.ofTokens
  split
  case h_1 | h_2 => exact withPlace _ _ _ fun r place hp => hp
  case h_3 op destination left right =>
    exact (Register.ofToken_yields destination).bind fun d _ =>
      withSource left right (.combine op d) fun r source hs => hs
  case h_4 | h_5 | h_6 => exact withSource _ _ _ fun r source hs => hs
  case h_9 | h_10 => exact (Register.ofToken_yields _).bind fun r _ => trivial
  all_goals exact trivial

end RegisterMachine
