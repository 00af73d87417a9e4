import RegisterMachine.Proofs.Instruction.Roles
import RegisterMachine.Proofs.Instruction.Soundness
import RegisterMachine.Proofs.Instruction.World

/-!
# Why an instruction fails

An instruction is checked in a fixed order: its mnemonic, the number of its arguments, for a
conditional branch that there is a comparison, its arguments from left to right, each in its role,
and for the reading of input the line that is read. The first check that fails decides the failure,
whatever else is wrong, and an instruction that passes them all completes.
-/

namespace RegisterMachine

/-! ## Resolving arguments -/

/-- Resolves a token in a role. Beyond the token itself, this looks at the registers, at the size of
memory and at the labels. -/
def Role.resolve (layout : Layout) (cpu : Cpu) (memorySize : Int) (role : Role) (token : String) :
    Except (Failure Fault) Unit :=
  match role with
  | .register => (Register.ofToken token).map fun _ => ()
  | .place => (resolveAddress token cpu memorySize).map fun _ => ()
  | .source => (resolveOperand token cpu).map fun _ => ()
  | .label => (resolveLabel token layout).map fun _ => ()

/-- The leftmost of some tokens that cannot be resolved in its role fails in a way. -/
def LeftmostFails (layout : Layout) (cpu : Cpu) (memorySize : Int) (tokens : List (Role × String))
    (failure : Failure Fault) : Prop :=
  ∃ front role token back, tokens = front ++ (role, token) :: back ∧
    (∀ item ∈ front, item.1.resolve layout cpu memorySize item.2 = .ok ()) ∧
    role.resolve layout cpu memorySize token = .error failure

def Mnemonic.lacksComparison (m : Mnemonic) (cpu : Cpu) : Bool :=
  match m with
  | .branchIf _ => cpu.comparison.isNone
  | _ => false

/-- What an instruction has to pass before it has an effect. A missing comparison goes before the
label. -/
def Mnemonic.checkArguments (m : Mnemonic) (layout : Layout) (cpu : Cpu) (memorySize : Int)
    (arguments : List String) : Except (Failure Fault) Unit :=
  if m.lacksComparison cpu then .error (.fault (.noComparison m.name))
  else forM (m.roles.zip arguments) fun item => item.1.resolve layout cpu memorySize item.2

section
variable {cpu : Cpu} (h : cpu.HoldsWords)
include h

/-- With the right number of arguments, an instruction has an effect exactly if it passes. -/
theorem Mnemonic.effect_checked {m : Mnemonic} {arguments : List String}
    (hl : arguments.length = m.arity) (layout : Layout) (memorySize : Int) :
    (m.effect layout cpu memorySize arguments).map (fun _ => ()) =
      m.checkArguments layout cpu memorySize arguments := by
  cases m with
  | load | store =>
      obtain ⟨a, b, rfl⟩ := List.length_eq_two.1 hl
      simp only [effect, checkArguments, lacksComparison, roles, List.zip_cons_cons,
        List.zip_nil_right, List.forM_cons, List.forM_nil, Role.resolve, h.read_eq]
      cases Register.ofToken a <;> cases resolveAddress b cpu memorySize <;> rfl
  | combine op =>
      obtain ⟨a, b, c, rfl⟩ := List.length_eq_three.1 hl
      simp only [effect, checkArguments, lacksComparison, roles, List.zip_cons_cons,
        List.zip_nil_right, List.forM_cons, List.forM_nil, Role.resolve, h.read_eq]
      cases Register.ofToken a <;> cases Register.ofToken b <;> cases resolveOperand c cpu <;> rfl
  | move | moveNot | compare =>
      obtain ⟨a, b, rfl⟩ := List.length_eq_two.1 hl
      simp only [effect, checkArguments, lacksComparison, roles, List.zip_cons_cons,
        List.zip_nil_right, List.forM_cons, List.forM_nil, Role.resolve, h.read_eq]
      cases Register.ofToken a <;> cases resolveOperand b cpu <;> rfl
  | branch =>
      obtain ⟨a, rfl⟩ := List.length_eq_one_iff.1 hl
      simp only [effect, checkArguments, lacksComparison, roles, List.zip_cons_cons,
        List.zip_nil_right, List.forM_cons, List.forM_nil, Role.resolve]
      cases resolveLabel a layout <;> rfl
  | branchIf relation =>
      obtain ⟨a, rfl⟩ := List.length_eq_one_iff.1 hl
      simp only [effect, checkArguments, lacksComparison, roles, List.zip_cons_cons,
        List.zip_nil_right, List.forM_cons, List.forM_nil, Role.resolve]
      -- Without a comparison neither side looks at the label.
      cases cpu.comparison <;> cases resolveLabel a layout <;> rfl
  | input =>
      obtain ⟨a, rfl⟩ := List.length_eq_one_iff.1 hl
      simp only [effect, checkArguments, lacksComparison, roles, List.zip_cons_cons,
        List.zip_nil_right, List.forM_cons, List.forM_nil, Role.resolve]
      cases Register.ofToken a <;> rfl
  | output =>
      obtain ⟨a, rfl⟩ := List.length_eq_one_iff.1 hl
      simp only [effect, checkArguments, lacksComparison, roles, List.zip_cons_cons,
        List.zip_nil_right, List.forM_cons, List.forM_nil, Role.resolve, registerValue_eq h,
        bind_assoc, pure_bind, checkWritable_value h]
      cases Register.ofToken a <;> rfl
  | halt =>
      obtain rfl := List.length_eq_zero_iff.1 hl
      rfl

end

/-! ## Carrying out an effect -/

/-- An address is compared with the size of memory before there is an effect. -/
theorem Mnemonic.inBounds_of_effect {m : Mnemonic} {layout : Layout} {cpu : Cpu} {memorySize : Int}
    {arguments : List String} {effect : Effect}
    (h : m.effect layout cpu memorySize arguments = .ok effect) : effect.InBounds memorySize := by
  have hy : Yields (Effect.InBounds memorySize) (fun _ => True)
      (m.effect layout cpu memorySize arguments) := by
    unfold Mnemonic.effect
    split
    case h_1 =>
      exact (Yields.any _).bind fun _ _ => (Yields.self _).bind fun a ha =>
        resolveAddress_bounds ha
    case h_2 =>
      exact (Yields.any _).bind fun _ _ => (Yields.self _).bind fun a ha =>
        (Yields.any _).bind fun _ _ => resolveAddress_bounds ha
    case h_3 =>
      exact (Yields.any _).bind fun _ _ => (Yields.any _).bind fun _ _ =>
        (Yields.any _).bind fun _ _ => (Yields.any _).bind fun _ _ => trivial
    case h_6 =>
      exact (Yields.any _).bind fun _ _ => (Yields.any _).bind fun _ _ =>
        (Yields.any _).bind fun _ _ => trivial
    case h_4 | h_5 | h_10 =>
      exact (Yields.any _).bind fun _ _ => (Yields.any _).bind fun _ _ => trivial
    case h_7 | h_9 => exact (Yields.any _).bind fun _ _ => trivial
    case h_8 =>
      split
      next => exact trivial
      next => exact (Yields.any _).bind fun _ _ => trivial
    case h_11 | h_12 => exact trivial
  exact hy.of_ok h

theorem Effect.perform_input {cpu : Cpu} (h : cpu.HoldsWords) (world : World) (r : Register) :
    ((Effect.input r).perform cpu world).1.map (fun _ => ()) =
      world.readWord.1.map fun _ => () := by
  simp only [perform, h.write_eq, orCrash_ok]
  cases world.readWord.1 <;> rfl

theorem Mnemonic.effect_eq_input_iff {m : Mnemonic} {layout : Layout} {cpu : Cpu} {memorySize : Int}
    {arguments : List String} {effect : Effect}
    (h : m.effect layout cpu memorySize arguments = .ok effect) :
    (∃ r, effect = .input r) ↔ m = .input := by
  have hr := Mnemonic.resolves_of_effect h
  cases effect with
  | input r => exact iff_of_true ⟨r, rfl⟩ hr.1
  | load | store | output =>
      obtain ⟨rfl, -⟩ := hr
      exact iff_of_false nofun nofun
  | set | compare | jump =>
      have hn : m ≠ .input := Mnemonic.ne_of_touchesWorld hr rfl
      exact iff_of_false nofun hn

/-! ## All checks of an instruction -/

/-- What an instruction with the right number of arguments has to pass, in order. -/
def Mnemonic.checks (m : Mnemonic) (layout : Layout) (cpu : Cpu) (world : World)
    (arguments : List String) : Except (Failure Fault) Unit := do
  m.checkArguments layout cpu world.memory.size arguments
  if m = .input then world.readWord.1.map fun _ => () else .ok ()

/-- An instruction fails as its checks do, and completes if it passes them. -/
theorem Registry.execute_checked {cpu : Cpu} (h : cpu.HoldsWords) {decoded : Decoded} {m : Mnemonic}
    (hm : decoded.mnemonic = m.name) (hl : decoded.arguments.length = m.arity) (layout : Layout)
    (world : World) :
    (standard.execute layout cpu decoded world).1.map (fun _ => ()) =
      m.checks layout cpu world decoded.arguments := by
  have hc := Mnemonic.effect_checked h hl layout world.memory.size
  rw [execute_of_mnemonic hm, Mnemonic.checks, ← hc, Mnemonic.handler_eq]
  cases he : m.effect layout cpu world.memory.size decoded.arguments with
  | error failure => rfl
  | ok effect =>
      by_cases hi : m = .input
      · obtain ⟨r, rfl⟩ := (Mnemonic.effect_eq_input_iff he).2 hi
        rw [if_pos hi, ← Effect.perform_input h world r]
        dsimp only
        cases (Effect.input r).perform cpu world with
        | mk result after => cases result <;> rfl
      · -- Any other effect completes: its cell, if it has one, was found to be in memory.
        have hn (r : Register) : effect ≠ .input r := fun e =>
          hi ((Mnemonic.effect_eq_input_iff he).1 ⟨r, e⟩)
        obtain ⟨next, hp⟩ := Effect.perform_completes (Mnemonic.inBounds_of_effect he) h hn
        simp only [hp, if_neg hi]
        rfl

/-! ## Failures -/

/-- There is no line to be read, or it denotes no word. -/
def Console.AwaitsNoWord (console : Console) : Prop :=
  console.pending.head? = none ∨
    ∃ line, console.pending.head? = some line ∧ Word.ofText line.toList = .ok none

/-- The failures of an instruction, each under the condition that nothing goes before it. -/
inductive FailsWith (layout : Layout) (cpu : Cpu) (world : World) (decoded : Decoded) :
    Failure Fault → Prop
  | unknown (h : ∀ m : Mnemonic, decoded.mnemonic ≠ m.name) :
      FailsWith layout cpu world decoded (.fault (.unknownInstruction decoded.mnemonic))
  | arity {m : Mnemonic} (hm : decoded.mnemonic = m.name)
      (hl : decoded.arguments.length ≠ m.arity) :
      FailsWith layout cpu world decoded
        (.fault (.arity m.name m.arity decoded.arguments.length))
  | comparison {relation : Relation} (hm : decoded.mnemonic = (Mnemonic.branchIf relation).name)
      (hl : decoded.arguments.length = 1) (hc : cpu.comparison = none) :
      FailsWith layout cpu world decoded (.fault (.noComparison decoded.mnemonic))
  | argument {m : Mnemonic} (hm : decoded.mnemonic = m.name)
      (hl : decoded.arguments.length = m.arity)
      (hc : cpu.comparison = none → ∀ relation, m ≠ .branchIf relation) {failure : Failure Fault}
      (hf : LeftmostFails layout cpu world.memory.size (m.roles.zip decoded.arguments) failure) :
      FailsWith layout cpu world decoded failure
  | input (hm : decoded.mnemonic = Mnemonic.input.name) {token : String} {r : Register}
      (ha : decoded.arguments = [token]) (hr : Register.ofToken token = .ok r)
      (hn : world.console.AwaitsNoWord) : FailsWith layout cpu world decoded (.fault .badInput)
  | unreadable (hm : decoded.mnemonic = Mnemonic.input.name) {token : String} {r : Register}
      (ha : decoded.arguments = [token]) (hr : Register.ofToken token = .ok r) {line : String}
      (hp : world.console.pending.head? = some line) {e : Text.NumeralError}
      (he : Word.ofText line.toList = .error e) :
      FailsWith layout cpu world decoded (.crash (.numeral e))

theorem Register.ofToken_ne_badInput (token : String) :
    Register.ofToken token ≠ .error (.fault .badInput) := by
  unfold ofToken
  split
  next => nofun
  next =>
    split
    next => nofun
    next =>
      dsimp only
      split <;> nofun

/-- A reading of input does not come to the line before its argument names a register. -/
theorem failsWith_badInput_iff {layout : Layout} {cpu : Cpu} {world : World} {decoded : Decoded}
    (hm : decoded.mnemonic = Mnemonic.input.name) :
    FailsWith layout cpu world decoded (.fault .badInput) ↔
      (∃ token r, decoded.arguments = [token] ∧ Register.ofToken token = .ok r) ∧
        world.console.AwaitsNoWord := by
  constructor
  · intro hf
    cases hf with
    | input _ ha hr hn => exact ⟨⟨_, _, ha, hr⟩, hn⟩
    | argument hm' hl _ hf =>
        obtain rfl := Mnemonic.name_injective (hm.symm.trans hm')
        obtain ⟨token, ha⟩ := List.length_eq_one_iff.1 hl
        obtain ⟨front, role, other, back, he, -, hr⟩ := hf
        have hmem : (role, other) ∈ Mnemonic.input.roles.zip [token] := by
          rw [← ha, he]
          exact List.mem_append_right front List.mem_cons_self
        obtain ⟨rfl, rfl⟩ := Prod.mk.inj (List.mem_singleton.1 hmem)
        exact (Register.ofToken_ne_badInput _ (map_eq_error_iff.1 hr)).elim
  · rintro ⟨⟨token, r, ha, hr⟩, hn⟩
    exact .input hm ha hr hn

theorem World.readWord_eq_error_iff {world : World} {failure : Failure Fault} :
    world.readWord.1 = .error failure ↔
      (failure = .fault .badInput ∧ world.console.AwaitsNoWord) ∨
      ∃ line e, world.console.pending.head? = some line ∧ Word.ofText line.toList = .error e ∧
        failure = .crash (.numeral e) := by
  unfold World.readWord Console.readLine Console.AwaitsNoWord
  cases world.console.pending.head? with
  | none => simp [eq_comm]
  | some line =>
      cases ht : Word.ofText line.toList with
      | error e => simp [wordOr, ht, eq_comm]
      | ok v? => cases v? <;> simp [wordOr, ht, eq_comm]

theorem Mnemonic.checkArguments_eq_error_iff {m : Mnemonic} {layout : Layout} {cpu : Cpu}
    {memorySize : Int} {arguments : List String} {failure : Failure Fault} :
    m.checkArguments layout cpu memorySize arguments = .error failure ↔
      (m.lacksComparison cpu = true ∧ failure = .fault (.noComparison m.name)) ∨
      (m.lacksComparison cpu = false ∧
        LeftmostFails layout cpu memorySize (m.roles.zip arguments) failure) := by
  unfold checkArguments LeftmostFails
  cases m.lacksComparison cpu with
  | true => simp [eq_comm]
  | false => simp [forM_eq_error_iff]

theorem Mnemonic.lacksComparison_iff {m : Mnemonic} {cpu : Cpu} :
    m.lacksComparison cpu = true ↔
      cpu.comparison = none ∧ ∃ relation, m = .branchIf relation := by
  cases m <;> simp [lacksComparison]

/-- The one argument of a reading of input passes exactly if it names a register. -/
theorem Mnemonic.checkArguments_input_iff (layout : Layout) (cpu : Cpu) (memorySize : Int)
    (token : String) :
    Mnemonic.input.checkArguments layout cpu memorySize [token] = .ok () ↔
      ∃ r, Register.ofToken token = .ok r := by
  simp only [checkArguments, lacksComparison, roles, List.zip_cons_cons, List.zip_nil_right,
    List.forM_cons, List.forM_nil, Role.resolve]
  cases Register.ofToken token <;> simp [Except.map, bind, Except.bind, pure, Except.pure]

theorem Mnemonic.checks_eq_error_iff {m : Mnemonic} {layout : Layout} {cpu : Cpu} {world : World}
    {arguments : List String} {failure : Failure Fault} :
    m.checks layout cpu world arguments = .error failure ↔
      m.checkArguments layout cpu world.memory.size arguments = .error failure ∨
      (m.checkArguments layout cpu world.memory.size arguments = .ok () ∧ m = .input ∧
        world.readWord.1 = .error failure) := by
  unfold checks
  cases m.checkArguments layout cpu world.memory.size arguments with
  | error reason => simp [bind, Except.bind]
  | ok _ =>
      by_cases hi : m = .input
      · simp [bind, Except.bind, hi, map_eq_error_iff]
      · simp [bind, Except.bind, hi]

namespace Registry

section
variable {cpu : Cpu} (h : cpu.HoldsWords) {layout : Layout} {decoded : Decoded} {world : World}
  {failure : Failure Fault}
include h

theorem execute_eq_error_iff {m : Mnemonic} (hm : decoded.mnemonic = m.name)
    (hl : decoded.arguments.length = m.arity) :
    (standard.execute layout cpu decoded world).1 = .error failure ↔
      m.checks layout cpu world decoded.arguments = .error failure := by
  rw [← execute_checked h hm hl, map_eq_error_iff]

/-- Whatever goes before all other failures is the failure of the instruction. -/
theorem execute_of_failsWith (hf : FailsWith layout cpu world decoded failure) :
    (standard.execute layout cpu decoded world).1 = .error failure := by
  have input (hm : decoded.mnemonic = Mnemonic.input.name) {token : String} {r : Register}
      (ha : decoded.arguments = [token]) (hr : Register.ofToken token = .ok r)
      (he : world.readWord.1 = .error failure) :
      (standard.execute layout cpu decoded world).1 = .error failure := by
    rw [execute_eq_error_iff h hm (by rw [ha]; rfl), ha]
    refine Mnemonic.checks_eq_error_iff.2 (.inr ⟨?_, rfl, he⟩)
    exact (Mnemonic.checkArguments_input_iff layout cpu _ token).2 ⟨r, hr⟩
  cases hf with
  | unknown hn => rw [execute_of_not_mnemonic hn]
  | arity hm hl => rw [execute_of_unread h hm layout world (Command.ofTokens_of_length_ne hl)]
  | @comparison relation hm hl hc =>
      have hn := Mnemonic.lacksComparison_iff.2 ⟨hc, relation, rfl⟩
      rw [execute_eq_error_iff h hm hl, hm]
      refine Mnemonic.checks_eq_error_iff.2 (.inl ?_)
      exact Mnemonic.checkArguments_eq_error_iff.2 (.inl ⟨hn, rfl⟩)
  | @argument m hm hl hc _ hf =>
      have hn : m.lacksComparison cpu = false := by
        refine eq_false_of_ne_true fun hn => ?_
        obtain ⟨hnone, relation, he⟩ := Mnemonic.lacksComparison_iff.1 hn
        exact hc hnone relation he
      rw [execute_eq_error_iff h hm hl]
      refine Mnemonic.checks_eq_error_iff.2 (.inl ?_)
      exact Mnemonic.checkArguments_eq_error_iff.2 (.inr ⟨hn, hf⟩)
  | input hm ha hr hn => exact input hm ha hr (World.readWord_eq_error_iff.2 (.inl ⟨rfl, hn⟩))
  | unreadable hm ha hr hp he =>
      exact input hm ha hr (World.readWord_eq_error_iff.2 (.inr ⟨_, _, hp, he, rfl⟩))

/-- An instruction that fails does so because of a check that goes before all others. -/
theorem failsWith_of_execute (hx : (standard.execute layout cpu decoded world).1 = .error failure) :
    FailsWith layout cpu world decoded failure := by
  by_cases hm : ∃ m : Mnemonic, decoded.mnemonic = m.name
  · obtain ⟨m, hm⟩ := hm
    by_cases hl : decoded.arguments.length = m.arity
    · rw [execute_eq_error_iff h hm hl] at hx
      rcases Mnemonic.checks_eq_error_iff.1 hx with hc | ⟨hc, rfl, he⟩
      · rcases Mnemonic.checkArguments_eq_error_iff.1 hc with ⟨hn, rfl⟩ | ⟨hn, hf⟩
        · obtain ⟨hnone, relation, rfl⟩ := Mnemonic.lacksComparison_iff.1 hn
          rw [← hm]
          exact .comparison hm hl hnone
        · refine .argument hm hl ?_ hf
          rintro hnone relation rfl
          rw [Mnemonic.lacksComparison_iff.2 ⟨hnone, relation, rfl⟩] at hn
          cases hn
      · obtain ⟨token, ha⟩ := List.length_eq_one_iff.1 hl
        rw [ha] at hc
        obtain ⟨r, hr⟩ := (Mnemonic.checkArguments_input_iff layout cpu _ token).1 hc
        rcases World.readWord_eq_error_iff.1 he with ⟨rfl, hn⟩ | ⟨line, e, hp, ht, rfl⟩
        · exact .input hm ha hr hn
        · exact .unreadable hm ha hr hp ht
    · rw [execute_of_unread h hm layout world (Command.ofTokens_of_length_ne hl)] at hx
      cases hx
      exact .arity hm hl
  · have hn (m : Mnemonic) : decoded.mnemonic ≠ m.name := fun he => hm ⟨m, he⟩
    rw [execute_of_not_mnemonic hn] at hx
    cases hx
    exact .unknown hn

end

/-- An instruction fails in the way that goes before all others that apply, and completes if none
applies. In particular the reading of input fails for want of a word exactly if its argument names a
register and the next line is missing or denotes no word. The number of arguments that is compared
with theirs is fixed for each mnemonic. -/
theorem execute_fails_iff {cpu : Cpu} (h : cpu.HoldsWords) (layout : Layout) (decoded : Decoded)
    (world : World) :
    (∀ failure, (standard.execute layout cpu decoded world).1 = .error failure ↔
      FailsWith layout cpu world decoded failure) ∧
    ((∃ next, (standard.execute layout cpu decoded world).1 = .ok next) ↔
      ∀ failure, ¬FailsWith layout cpu world decoded failure) ∧
    (decoded.mnemonic = "IN" →
      ((standard.execute layout cpu decoded world).1 = .error (.fault .badInput) ↔
        (∃ token r, decoded.arguments = [token] ∧ Register.ofToken token = .ok r) ∧
          world.console.AwaitsNoWord)) ∧
    (Mnemonic.all.map fun m => (m.name, m.arity)) =
      [("LDR", 2), ("STR", 2), ("ADD", 3), ("SUB", 3), ("MOV", 2), ("CMP", 2), ("B", 1),
        ("BEQ", 1), ("BNE", 1), ("BGT", 1), ("BLT", 1), ("AND", 3), ("ORR", 3), ("EOR", 3),
        ("MVN", 2), ("LSL", 3), ("LSR", 3), ("IN", 1), ("OUT", 1), ("HALT", 0)] := by
  have hf (failure : Failure Fault) :
      (standard.execute layout cpu decoded world).1 = .error failure ↔
        FailsWith layout cpu world decoded failure :=
    ⟨failsWith_of_execute h, execute_of_failsWith h⟩
  refine ⟨hf, ?_, fun hm => (hf _).trans (failsWith_badInput_iff hm), rfl⟩
  simp only [← hf]
  cases (standard.execute layout cpu decoded world).1 with
  | error failure => exact iff_of_false nofun fun hn => hn failure rfl
  | ok next => exact iff_of_true ⟨next, rfl⟩ nofun

/-- Two of the arguments are bad: the first of them decides, although the other names no register
either. -/
theorem execute_fails_iff_two_bad :
    let layout : Layout := { length := 1 }
    let world : World := { memory := .zeroed 4 (by decide) (by decide), console := {} }
    let decoded := Decoded.ofText "ADD R1, X2, R99"
    Cpu.initial.HoldsWords ∧
      FailsWith layout Cpu.initial world decoded (.fault (.registerForm "X2")) ∧
      ¬FailsWith layout Cpu.initial world decoded (.fault (.registerNumber "R99")) := by
  intro layout world decoded
  have h := Cpu.holdsWords_initial
  have hx : (standard.execute layout Cpu.initial decoded world).1 =
      .error (.fault (.registerForm "X2")) := by
    decide +kernel
  have hf := (execute_fails_iff h layout decoded world).1
  refine ⟨h, (hf _).1 hx, fun hn => ?_⟩
  rw [← hf, hx] at hn
  cases hn

end Registry

end RegisterMachine
