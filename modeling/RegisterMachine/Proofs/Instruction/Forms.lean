import RegisterMachine.Proofs.Instruction.Frame
import RegisterMachine.Proofs.Instruction.Roles
import RegisterMachine.Proofs.Instruction.Written

/-!
# Forms of an argument

A second operand is a register or a literal, and an address is in a register or a number. An
instruction does not notice in which form it gets a value: a register that it only reads can be
replaced by the number that the register holds, even if the instruction writes the same register.
-/

namespace RegisterMachine

/-! ## Arguments that resolve alike -/

section
variable {cpu : Cpu} (h : cpu.HoldsWords)
include h

theorem resolveOperand_token (source : Source) (hs : source.HoldsWord) :
    resolveOperand source.token cpu = .ok (source.value cpu) := by
  rw [resolveOperand_eq h, Source.ofToken_token hs]
  rfl

theorem resolveAddress_token (place : Place) (hp : place.HoldsWord) (memorySize : Int) :
    resolveAddress place.token cpu memorySize = place.locate cpu memorySize := by
  rw [resolveAddress_eq h, Place.ofToken_token hp]
  rfl

end

/-- Tokens that resolve alike in a role. Only operands and addresses come in several forms. -/
def Role.Alike (cpu : Cpu) (memorySize : Int) (role : Role) (token other : String) : Prop :=
  match role with
  | .place => resolveAddress token cpu memorySize = resolveAddress other cpu memorySize
  | .source => resolveOperand token cpu = resolveOperand other cpu
  | .register | .label => token = other

section
variable {cpu : Cpu} (h : cpu.HoldsWords) (r : Register) (memorySize : Int)
include h

theorem Role.alike_literal :
    Role.source.Alike cpu memorySize (registerName r.val) ("#" ++ toString (cpu.value r)) := by
  have hr := resolveOperand_token h (.register r) trivial
  have hl := resolveOperand_token h (.literal (cpu.value r)) (h.inRange_value r)
  exact hr.trans hl.symm

theorem Role.alike_direct :
    Role.place.Alike cpu memorySize (registerName r.val) (toString (cpu.value r)) := by
  have hr := resolveAddress_token h (.indirect r) trivial memorySize
  have hd := resolveAddress_token h (.direct (cpu.value r)) (h.inRange_value r) memorySize
  exact hr.trans hd.symm

end

/-! ## Replacing an argument -/

theorem Mnemonic.of_role_place {m : Mnemonic} {i : Nat} (h : m.roles[i]? = some .place) :
    (m = .load ∨ m = .store) ∧ i = 1 := by
  revert h
  cases m <;> rcases i with _ | _ | _ | i <;> simp [roles]

theorem Mnemonic.of_role_source {m : Mnemonic} {i : Nat} (h : m.roles[i]? = some .source) :
    (∃ op, m = .combine op) ∧ i = 2 ∨ (m = .move ∨ m = .moveNot ∨ m = .compare) ∧ i = 1 := by
  revert h
  cases m <;> rcases i with _ | _ | _ | i <;> simp [roles]

/-- An argument can be replaced by one that resolves alike in its role, whatever the others are. -/
theorem Mnemonic.effect_set {m : Mnemonic} {arguments : List String} {i : Nat} {role : Role}
    {token other : String} (hr : m.roles[i]? = some role) (ht : arguments[i]? = some token)
    {cpu : Cpu} {memorySize : Int} (h : role.Alike cpu memorySize token other) (layout : Layout) :
    m.effect layout cpu memorySize (arguments.set i other) =
      m.effect layout cpu memorySize arguments := by
  by_cases hl : arguments.length = m.arity
  · cases role with
    | register | label =>
        obtain ⟨hi, rfl⟩ := List.getElem?_eq_some_iff.1 ht
        obtain rfl : arguments[i] = other := h
        rw [List.set_getElem_self hi]
    | source =>
        have hs : resolveOperand token cpu = resolveOperand other cpu := h
        rcases Mnemonic.of_role_source hr with ⟨⟨op, rfl⟩, rfl⟩ | ⟨rfl | rfl | rfl, rfl⟩
        · obtain ⟨a, b, c, rfl⟩ := List.length_eq_three.1 hl
          cases ht
          simp only [effect, List.set_cons_succ, List.set_cons_zero, hs]
        all_goals
          obtain ⟨a, b, rfl⟩ := List.length_eq_two.1 hl
          cases ht
          simp only [effect, List.set_cons_succ, List.set_cons_zero, hs]
    | place =>
        have hs : resolveAddress token cpu memorySize = resolveAddress other cpu memorySize := h
        obtain ⟨rfl | rfl, rfl⟩ := Mnemonic.of_role_place hr
        all_goals
          obtain ⟨a, b, rfl⟩ := List.length_eq_two.1 hl
          cases ht
          simp only [effect, List.set_cons_succ, List.set_cons_zero, hs]
  · -- The number of arguments stays the same, and is all that the fault tells.
    have hl' : (arguments.set i other).length ≠ m.arity := by rwa [List.length_set]
    rw [effect_of_length_ne hl, effect_of_length_ne hl', List.length_set]

namespace Registry

theorem execute_set {m : Mnemonic} {arguments : List String} {i : Nat} {role : Role}
    {token other : String} (hr : m.roles[i]? = some role) (ht : arguments[i]? = some token)
    {cpu : Cpu} {world : World} (h : role.Alike cpu world.memory.size token other) (layout : Layout)
    (raw raw' : String) :
    standard.execute layout cpu ⟨m.name, arguments.set i other, raw'⟩ world =
      standard.execute layout cpu ⟨m.name, arguments, raw⟩ world := by
  have hx (decoded : Decoded) (hm : decoded.mnemonic = m.name) :=
    execute_of_mnemonic hm layout cpu world
  rw [hx _ rfl, hx _ rfl]
  simp only [Mnemonic.handler_eq, Mnemonic.effect_set hr ht h layout]

/-- The two forms of a second operand, and those of an address, are interchangeable. Where a second
operand is taken from a register, a literal with the value of the register can stand, and where an
address is taken from a register, its value can stand as a number: the instruction gives the same
processor and leaves the same world, or fails in the same way. In particular the two forms of an
address are accepted by the same sizes of memory. Ten instructions take a second operand and two an
address. -/
theorem execute_of_other_form {cpu : Cpu} (h : cpu.HoldsWords) {r : Register} {v : Int}
    (hv : cpu.read r = .ok v) (m : Mnemonic) (arguments : List String) (i : Nat)
    (ha : arguments[i]? = some (registerName r.val)) (layout : Layout) (world : World)
    (raw raw' : String) :
    (m.roles[i]? = some .source →
      standard.execute layout cpu ⟨m.name, arguments.set i ("#" ++ toString v), raw'⟩ world =
        standard.execute layout cpu ⟨m.name, arguments, raw⟩ world) ∧
    (m.roles[i]? = some .place →
      standard.execute layout cpu ⟨m.name, arguments.set i (toString v), raw'⟩ world =
        standard.execute layout cpu ⟨m.name, arguments, raw⟩ world) ∧
    (∀ memorySize : Int, resolveAddress (toString v) cpu memorySize =
      resolveAddress (registerName r.val) cpu memorySize) ∧
    (Mnemonic.all.filter (.source ∈ ·.roles)).map (·.name) =
      ["ADD", "SUB", "MOV", "CMP", "AND", "ORR", "EOR", "MVN", "LSL", "LSR"] ∧
    (Mnemonic.all.filter (.place ∈ ·.roles)).map (·.name) = ["LDR", "STR"] := by
  obtain rfl : cpu.value r = v := Except.ok.inj ((h.read_eq r).symm.trans hv)
  refine ⟨fun hr => ?_, fun hr => ?_, fun memorySize => ?_, rfl, rfl⟩
  · exact execute_set hr ha (Role.alike_literal h r _) layout raw raw'
  · exact execute_set hr ha (Role.alike_direct h r _) layout raw raw'
  · exact (Role.alike_direct h r memorySize).symm

/-- The least word, once as an operand from the register that is written, and once as an address
that no memory has. -/
theorem execute_of_other_form_least :
    let layout : Layout := { length := 1 }
    let r : Register := ⟨1, by decide⟩
    let cpu := Cpu.initial.put r Word.least
    let world : World := { memory := .zeroed 4 (by decide) (by decide), console := {} }
    let run (decoded : Decoded) := standard.execute layout cpu decoded world
    cpu.HoldsWords ∧ cpu.read r = .ok (-2147483648) ∧
      run ⟨"SUB", ["R1", "R2", "#-2147483648"], ""⟩ = run ⟨"SUB", ["R1", "R2", "R1"], ""⟩ ∧
      run ⟨"LDR", ["R1", "-2147483648"], ""⟩ = run ⟨"LDR", ["R1", "R1"], ""⟩ ∧
      (run ⟨"LDR", ["R1", "R1"], ""⟩).1 = .error (.fault (.addressRange (-2147483648) 4)) := by
  intro layout r cpu world run
  have h : cpu.HoldsWords := Cpu.holdsWords_initial.put r Word.least
  have hv : cpu.read r = .ok (-2147483648) := by decide +kernel
  have hn : registerName r.val = "R1" := by decide
  have hs := execute_of_other_form h hv (.combine .sub) ["R1", "R2", "R1"] 2 (by rw [hn]; rfl)
  have hp := execute_of_other_form h hv .load ["R1", "R1"] 1 (by rw [hn]; rfl)
  exact ⟨h, hv, (hs layout world "" "").1 rfl, (hp layout world "" "").2.1 rfl, by decide +kernel⟩

end Registry

end RegisterMachine
