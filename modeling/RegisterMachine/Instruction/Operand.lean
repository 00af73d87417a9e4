import RegisterMachine.Fault
import RegisterMachine.Word.Numeral

/-!
# Operands

The three forms of an argument: a register `Rn`; a memory address, either a number or a register
that holds it; and a second operand, either a literal `#n` or a register.
-/

namespace RegisterMachine

/-- The digits of a register token. One line feed may follow them. -/
def registerDigits? : List Char → Option (List Char)
  | 'R' :: suffix =>
      let digits := if suffix.getLast? = some '\n' then suffix.dropLast else suffix
      if digits.isEmpty || !digits.all Char.isDigit then none else some digits
  | _ => none

def Register.ofToken (token : String) : Except (Failure Fault) Register :=
  match registerDigits? token.toList with
  | none => .error (.fault (.registerForm token))
  | some digits =>
      if Text.maxDigits < digits.length then
        .error (.crash (.numeral (.tooLong digits.length)))
      else
        let index := Nat.ofDigitChars 10 digits 0
        if h : index < registerCount then .ok ⟨index, h⟩
        else .error (.fault (.registerNumber token))

/-- Whether a token is meant as a register. -/
def namesRegister (token : String) : Bool :=
  token.toList.head? = some 'R'

/-- The machine word that a text denotes, or a fault if it denotes none. -/
def wordOr (fault : Fault) (text : List Char) : Except (Failure Fault) Int :=
  match Word.ofText text with
  | .error e => .error (.crash (.numeral e))
  | .ok none => .error (.fault fault)
  | .ok (some v) => .ok v

def registerValue (token : String) (cpu : Cpu) : Except (Failure Fault) Int := do
  orCrash (cpu.read (← Register.ofToken token))

/-- The address that a token denotes, before it is compared with the size of memory. -/
def addressValue (token : String) (cpu : Cpu) : Except (Failure Fault) Int :=
  if namesRegister token then registerValue token cpu
  else wordOr (.addressForm token) token.toList

/-- The address that a token denotes in memory of a size. -/
def resolveAddress (token : String) (cpu : Cpu) (memorySize : Int) :
    Except (Failure Fault) Int := do
  let address ← addressValue token cpu
  if address < 0 || memorySize ≤ address then
    .error (Fault.addressRange address memorySize).toFailure
  else .ok address

def resolveOperand (token : String) (cpu : Cpu) : Except (Failure Fault) Int :=
  match token.toList with
  | '#' :: literal => wordOr (.literalForm token) literal
  | _ =>
      if namesRegister token then registerValue token cpu
      else .error (.fault (.operandForm token))

/-- An integer of which there is to be a text. -/
def checkWritable (v : Int) : Except Crash Int :=
  if Text.isWritable v then .ok v else .error .unwritable

/-- Accepts an argument list of the expected length. -/
def expectArguments (mnemonic : String) (arguments : List String) (count : Int) :
    Except (Failure Fault) Unit :=
  if arguments.length = count then .ok ()
  else .error (.fault (.arity mnemonic count arguments.length))

theorem eq_of_checkWritable
    {v w : Int} (h : orCrash (checkWritable v) = (.ok w : Except (Failure Fault) Int)) :
    w = v := by
  unfold checkWritable at h
  split at h <;> cases h
  rfl

theorem checkWritable_of_inRange {v : Int} (h : Word.inRange v = true) :
    checkWritable v = .ok v := by
  rw [checkWritable, if_pos (Word.isWritable_of_inRange h)]

theorem resolveAddress_bounds
    {token : String} {cpu : Cpu} {memorySize address : Int}
    (h : resolveAddress token cpu memorySize = .ok address) :
    0 ≤ address ∧ address < memorySize := by
  unfold resolveAddress at h
  cases ha : addressValue token cpu with
  | error e => simp [ha, bind, Except.bind] at h
  | ok a =>
      simp only [ha, bind, Except.bind] at h
      split at h
      · cases h
      · rename_i hn
        cases h
        simp only [Bool.or_eq_true, decide_eq_true_eq, not_or] at hn
        omega

end RegisterMachine
