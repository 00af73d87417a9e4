import RegisterMachine.Proofs.Instruction.Branches
import RegisterMachine.Proofs.Machine.Completed

/-!
# Programs that only go forward

A run has no bound of its own. It has one in a program whose branches all lead forward, because the
program counter then grows with every instruction and cannot grow past the end of the program. If
there is no branch at all, and nothing that ends the program early, the program counter is the
number of instructions executed.
-/

namespace RegisterMachine

/-! ## Where an instruction leads -/

def Mnemonic.isBranch : Mnemonic → Bool
  | .branch | .branchIf _ => true
  | .load | .store | .combine _ | .move | .moveNot | .compare | .input | .output | .halt => false

/-- The addresses that an instruction can lead to: the next one, that of its label, or the end of
the program. -/
inductive Mnemonic.LeadsTo (m : Mnemonic) (layout : Layout) (pc : Int) (arguments : List String) :
    Int → Prop
  | next : m.LeadsTo layout pc arguments (pc + 1)
  | label {label : String} {target : Int} (branch : m.isBranch = true)
      (argument : arguments = [label]) (declared : layout.labels.find? label = some target) :
      m.LeadsTo layout pc arguments target
  | finish (halt : m = .halt) : m.LeadsTo layout pc arguments layout.length

theorem find?_of_resolveLabel {label : String} {layout : Layout} {target : Int}
    (h : resolveLabel label layout = .ok target) : layout.labels.find? label = some target := by
  unfold resolveLabel at h
  split at h
  next found hf =>
    cases h
    exact hf
  next => cases h

/-- An instruction leads to the next address exactly if it does not set the program counter, and
otherwise to the address that it sets. -/
theorem Mnemonic.leadsTo_of_effect {m : Mnemonic} {layout : Layout} {cpu : Cpu} {memorySize : Int}
    {arguments : List String} {effect : Effect}
    (h : m.effect layout cpu memorySize arguments = .ok effect) :
    (effect.target? = none ∧ m.setsPc = false) ∨
      ∃ target, effect.target? = some target ∧ m.setsPc = true ∧
        m.LeadsTo layout cpu.pc arguments target := by
  have hy : Yields
      (fun effect => (effect.target? = none ∧ m.setsPc = false) ∨
        ∃ target, effect.target? = some target ∧ m.setsPc = true ∧
          m.LeadsTo layout cpu.pc arguments target)
      (fun _ => True) (m.effect layout cpu memorySize arguments) := by
    unfold Mnemonic.effect
    split
    case h_3 =>
      exact (Yields.any _).bind fun _ _ => (Yields.any _).bind fun _ _ =>
        (Yields.any _).bind fun _ _ => (Yields.any _).bind fun _ _ => .inl ⟨rfl, rfl⟩
    case h_2 | h_6 =>
      exact (Yields.any _).bind fun _ _ => (Yields.any _).bind fun _ _ =>
        (Yields.any _).bind fun _ _ => .inl ⟨rfl, rfl⟩
    case h_1 | h_4 | h_5 | h_10 =>
      exact (Yields.any _).bind fun _ _ => (Yields.any _).bind fun _ _ => .inl ⟨rfl, rfl⟩
    case h_9 => exact (Yields.any _).bind fun _ _ => .inl ⟨rfl, rfl⟩
    case h_7 =>
      exact (Yields.self _).bind fun target ht =>
        .inr ⟨target, rfl, rfl, .label rfl rfl (find?_of_resolveLabel ht)⟩
    case h_8 relation _ =>
      split
      next => exact trivial
      next compared _ =>
        refine (Yields.self _).bind fun target ht => .inr ⟨_, rfl, rfl, ?_⟩
        by_cases hr : relation.holds compared.left compared.right = true
        · rw [if_pos hr]
          exact .label rfl rfl (find?_of_resolveLabel ht)
        · rw [if_neg hr]
          exact .next
    case h_11 => exact .inr ⟨layout.length, rfl, rfl, .finish rfl⟩
    case h_12 => exact trivial
  exact hy.of_ok h

/-- A completed instruction has led to one of the addresses that it can lead to. -/
theorem Registry.leadsTo_of_execute {layout : Layout} {cpu next : Cpu} {decoded : Decoded}
    {world after : World} (h : standard.execute layout cpu decoded world = (.ok next, after)) :
    ∃ m : Mnemonic, decoded.mnemonic = m.name ∧
      m.LeadsTo layout cpu.pc decoded.arguments next.pc := by
  obtain ⟨m, effect, carried, hm, he, hp, rfl⟩ := execute_eq_ok h
  obtain ⟨hpc, -, -⟩ := Effect.control_of_perform hp
  refine ⟨m, hm, ?_⟩
  rcases Mnemonic.leadsTo_of_effect he with ⟨ht, hs⟩ | ⟨target, ht, hs, hl⟩
  · rw [ht, Option.getD_none] at hpc
    rw [hs]
    simp only [Bool.false_eq_true, if_false, Cpu.countCycle, Cpu.advance, Cpu.jump, hpc]
    exact .next
  · rw [ht, Option.getD_some] at hpc
    rw [hs]
    simp only [if_true, Cpu.countCycle, hpc]
    exact hl

/-! ## Programs -/

namespace Program

/-- Every branch to a declared label goes to an instruction further on. -/
def BranchesForward (program : Program) : Prop :=
  ∀ (index : Nat) (instruction : Instruction) (m : Mnemonic) (label : String) (target : Int),
    program.instructions[index]? = some instruction →
    (Decoded.ofText instruction.text).mnemonic = m.name → m.isBranch = true →
    (Decoded.ofText instruction.text).arguments = [label] →
    program.labels.find? label = some target → index < target

def leadsForward (program : Program) (entry : Instruction × Nat) : Bool :=
  let decoded := Decoded.ofText entry.1.text
  match Mnemonic.ofName? decoded.mnemonic, decoded.arguments with
  | some m, [label] => !m.isBranch || (program.labels.find? label).all ((entry.2 : Int) < ·)
  | _, _ => true

theorem branchesForward_iff (program : Program) :
    program.BranchesForward ↔
      ∀ entry ∈ program.instructions.toList.zipIdx, program.leadsForward entry = true := by
  have hmem (instruction : Instruction) (index : Nat) :
      (instruction, index) ∈ program.instructions.toList.zipIdx ↔
        program.instructions[index]? = some instruction := by
    rw [List.mem_zipIdx_iff_getElem?, Array.getElem?_toList]
  constructor
  · rintro h ⟨instruction, index⟩ he
    unfold leadsForward
    dsimp only
    split
    next m label hm ha =>
      cases hb : m.isBranch with
      | false => rfl
      | true =>
          cases hl : program.labels.find? label with
          | none => rfl
          | some target =>
              have hlt := h index instruction m label target ((hmem _ _).1 he)
                (Mnemonic.name_of_ofName? hm).symm hb ha hl
              simpa using hlt
    next => rfl
  · intro h index instruction m label target hi hm hb ha hl
    have he := h (instruction, index) ((hmem _ _).2 hi)
    simpa [leadsForward, hm, ha, hb, hl] using he

instance (program : Program) : Decidable program.BranchesForward :=
  decidable_of_iff _ (branchesForward_iff program).symm

/-- No instruction is a branch, and none ends the program. -/
def StraightLine (program : Program) : Prop :=
  ∀ instruction ∈ program.instructions, ∀ m : Mnemonic,
    (Decoded.ofText instruction.text).mnemonic = m.name → m.isBranch = false ∧ m ≠ .halt

end Program

namespace Machine

/-! ## Steps -/

namespace Within

variable {m : Machine} {program : Program} {file : String} {cpu : Cpu}
  (h : m.Within program file cpu) {entry : TraceEntry} {next : Machine}
  (hs : m.step = (.ok (some entry), next))
include h hs

/-- A step leads to an address that the instruction it executes can lead to. -/
theorem leadsTo_of_step :
    ∃ (index : Nat) (instruction : Instruction) (mnemonic : Mnemonic), cpu.pc = index ∧
      index < program.length ∧ program.instructions[index]? = some instruction ∧
      (Decoded.ofText instruction.text).mnemonic = mnemonic.name ∧
      mnemonic.LeadsTo program.layout index (Decoded.ofText instruction.text).arguments
        entry.after.pc := by
  obtain ⟨program', hp, hc, hl, hf, hx⟩ := step_eq_ok hs
  obtain rfl : program' = program := Option.some.inj (hp.symm.trans h.program_eq)
  obtain rfl : entry.before = cpu := Option.some.inj (hc.symm.trans h.cpu_eq)
  obtain ⟨world, hr, -, -, -⟩ := executeAt_eq_ok hx
  obtain ⟨mnemonic, hm, hleads⟩ := Registry.leadsTo_of_execute hr
  obtain ⟨index, hindex⟩ := Int.eq_ofNat_of_zero_le h.pc_nonneg
  have hi := Program.fetch?_of_fetch hf
  rw [hindex, Program.fetch?_natCast] at hi
  rw [hindex] at hl hleads
  exact ⟨index, entry.instruction, mnemonic, hindex, Int.ofNat_lt.1 hl, hi, hm, hleads⟩

theorem pc_lt_of_step (hf : program.BranchesForward) : cpu.pc < entry.after.pc := by
  obtain ⟨index, instruction, mnemonic, hpc, hlt, hi, hm, hleads⟩ := h.leadsTo_of_step hs
  rw [hpc]
  generalize entry.after.pc = reached at hleads ⊢
  cases hleads with
  | next => omega
  | label hbranch hargument hdeclared =>
      exact hf index instruction mnemonic _ _ hi hm hbranch hargument hdeclared
  | finish => exact Int.ofNat_lt.2 hlt

theorem pc_of_step (hf : program.StraightLine) : entry.after.pc = cpu.pc + 1 := by
  obtain ⟨index, instruction, mnemonic, hpc, hlt, hi, hm, hleads⟩ := h.leadsTo_of_step hs
  obtain ⟨hb, hh⟩ := hf instruction (Array.mem_of_getElem? hi) mnemonic hm
  rw [hpc]
  generalize entry.after.pc = reached at hleads ⊢
  cases hleads with
  | next => rfl
  | label hbranch =>
      rw [hb] at hbranch
      cases hbranch
  | finish hhalt => exact (hh hhalt).elim

end Within

/-! ## Runs -/

section
variable {m : Machine} {program : Program} {file : String} {cpu : Cpu}
  (h : m.Within program file cpu) {k : Nat} {s : Machine} (hk : m.nth? k = some s)
include h hk

/-- Each step moves the program counter on by one at least. -/
theorem Within.pc_of_nth? (hf : program.BranchesForward) :
    ∃ reached, s.Within program file reached ∧ reached.cycles = cpu.cycles + k ∧
      cpu.pc + k ≤ reached.pc := by
  induction k generalizing m cpu with
  | zero =>
      cases hk
      exact ⟨cpu, h, by simp, by simp⟩
  | succ k ih =>
      rcases h.step_cases with ⟨he, -⟩ | ⟨he, ⟨entry, next, hs⟩ | ⟨failure, next, hs⟩⟩
      · simp [nth?_succ_of_isFinished he] at hk
      · rw [nth?_succ_of_step_ok he hs] at hk
        have hlt := h.pc_lt_of_step hs hf
        obtain ⟨hn, -, hy⟩ := h.step hs
        obtain ⟨reached, hw, hcycles, hpc⟩ := ih hn hk
        exact ⟨reached, hw, by omega, by omega⟩
      · simp [nth?_succ_of_step_error he hs] at hk

theorem Within.pc_of_nth?_straight (hf : program.StraightLine) :
    ∃ reached, s.Within program file reached ∧ reached.pc = cpu.pc + k := by
  induction k generalizing m cpu with
  | zero =>
      cases hk
      exact ⟨cpu, h, by simp⟩
  | succ k ih =>
      rcases h.step_cases with ⟨he, -⟩ | ⟨he, ⟨entry, next, hs⟩ | ⟨failure, next, hs⟩⟩
      · simp [nth?_succ_of_isFinished he] at hk
      · rw [nth?_succ_of_step_ok he hs] at hk
        have hpc := h.pc_of_step hs hf
        obtain ⟨reached, hw, hr⟩ := ih (h.step hs).1 hk
        exact ⟨reached, hw, by omega⟩
      · simp [nth?_succ_of_step_error he hs] at hk

end

/-! ## Runs without a limit -/

section
variable {m : Machine} {program : Program} {cpu : Cpu} (hp : m.program = some program)
  (hc : m.cpu = some cpu) (hf : program.BranchesForward)
include hp hc hf

/-- After as many steps as there are instructions there is none left, or the program counter would
be past the end. -/
theorem isFinished_of_forward {k : Nat} {s : Machine} (hk : m.restart.nth? k = some s)
    (hle : program.length ≤ k) : s.isFinished = true := by
  obtain ⟨reached, hw, -, hpc⟩ := (within_restart hp hc).pc_of_nth? hk hf
  have h0 : cpu.restart.pc = 0 := rfl
  rw [isFinished_of_loaded hw.program_eq hw.cpu_eq, decide_eq_true_eq]
  omega

theorem not_cutOff_of_forward {budget : Nat} (hb : program.length ≤ budget) :
    ¬m.restart.CutOff budget := by
  intro hcut
  obtain ⟨s, hs, hn⟩ := (within_restart hp hc).nth?_of_cutOff hcut
  rw [isFinished_of_forward hp hc hf hs hb] at hn
  cases hn

/-- A number of steps is at most the program counter that they lead to. -/
theorem cycles_le_of_forward (budget : Nat) :
    (m.restart.iterate budget).2.cycles ≤ program.length := by
  have hm := within_restart hp hc
  obtain ⟨last, hn, -, hends⟩ :=
    @iterate_ends (fun _ _ => True) (fun _ _ _ _ _ _ => trivial) m.restart [] trivial budget
  obtain ⟨reached, hw, hcycles, hpc⟩ := hm.pc_of_nth? hn hf
  have hle := hw.pc_le
  have hlast : last.cycles ≤ program.length := by
    have h0 : cpu.restart.pc = 0 := rfl
    have hy : cpu.restart.cycles = 0 := rfl
    simp only [cycles, hw.cpu_eq, Option.elim_some]
    omega
  cases hi : m.restart.iterate budget with
  | mk ending next =>
      rw [hi] at hends
      rcases hends.eq_or_failed with rfl | ⟨failure, hs⟩
      · exact hlast
      · rw [step_eq_error hs]
        exact hlast

end

/-- Without branches a run that comes to its end has executed each instruction once. -/
theorem result_of_straightLine {m : Machine} {program : Program} {cpu : Cpu}
    (hp : m.program = some program) (hc : m.cpu = some cpu) (hf : program.StraightLine)
    {limit : Option Int} {budget : Nat} {result : RunResult}
    (hr : (m.run limit budget).1 = some (.ok result)) (hok : result.ok = true) :
    result.cycles = program.length ∧ result.pc = program.length := by
  have hm := within_restart hp hc
  obtain ⟨last, hn, -, hends⟩ :=
    @iterate_ends (fun _ _ => True) (fun _ _ _ _ _ _ => trivial) m.restart [] trivial
      (m.allowance limit budget)
  cases hi : m.restart.iterate (m.allowance limit budget) with
  | mk ending next =>
      rw [run_of_iterate hp hc hi] at hr
      rw [hi] at hends
      rcases resultOf_eq_ok hr with ⟨rfl, rfl⟩ | ⟨report, -, rfl⟩ | ⟨bound, -, -, -, rfl⟩
      · obtain ⟨rfl, hfinished⟩ := hends
        obtain ⟨reached, hw, -, hcycles⟩ := hm.nth? hn
        obtain ⟨other, ho, hpc⟩ := hm.pc_of_nth?_straight hn hf
        obtain rfl : other = reached := Option.some.inj (ho.cpu_eq.symm.trans hw.cpu_eq)
        have hlast := hw.pc_of_isFinished hfinished
        have h0 : cpu.restart.pc = 0 := rfl
        have hy : cpu.restart.cycles = 0 := rfl
        rw [hw.resultWith]
        exact ⟨by dsimp only; omega, hlast⟩
      · cases hok
      · cases hok

/-- What a run without a limit can come to: a success, a fault of one of its instructions, or a
numeral that denotes no number. -/
def FreeOutcome (next : Machine) : Except Crash RunResult → Prop :=
  Yields
    (fun result => result.cycles = next.cycles ∧
      ∀ report, result.error = some report → report.fault.OfInstruction)
    (fun reason => ∃ error, reason = .numeral error)

theorem Consistent.freeOutcome {m next : Machine} {size : Int} (h : m.Consistent size)
    {budget : Nat} {ending : Ending} (hi : m.iterate budget = (ending, next))
    (hn : ending ≠ .exhausted) :
    ∃ outcome, next.resultOf none ending = some outcome ∧ next.FreeOutcome outcome := by
  have he := (h.iterate budget).2
  rw [hi] at he
  cases ending with
  | finished =>
      refine ⟨_, rfl, rfl, ?_⟩
      intro report hr
      cases hr
  | failed failure =>
      refine ⟨_, rfl, ?_⟩
      cases failure with
      | crash reason => exact he
      | fault report =>
          refine ⟨rfl, ?_⟩
          intro reported hr
          cases hr
          exact he
  | exhausted => exact (hn rfl).elim

/-- A run of a program whose branches all lead forward ends, with no limit to make it end, after at
most as many cycles as the program has instructions: it comes to the end of the program, or one of
its instructions fails. Its program counters strictly ascend. If the program has no branch and no
instruction that ends it, then a run that comes to the end has executed every instruction once. -/
theorem run_of_forward_branches {m : Machine} {size : Int} (h : m.Consistent size)
    {program : Program} (hp : m.program = some program) (hl : m.limit = none)
    (hf : program.BranchesForward) :
    (∃ outcome next,
      (∀ budget, program.length ≤ budget → m.run none budget = (some outcome, next)) ∧
      next.cycles ≤ program.length ∧ next.FreeOutcome outcome) ∧
    (∀ j k a b, j < k → m.restart.nth? j = some a → m.restart.nth? k = some b →
      ∃ before after, a.cpu = some before ∧ b.cpu = some after ∧ before.pc < after.pc) ∧
    (program.StraightLine → ∀ budget result, (m.run none budget).1 = some (.ok result) →
      result.ok = true → result.cycles = program.length ∧ result.pc = program.length) := by
  obtain ⟨cpu, hc, -, -⟩ := h.loaded hp
  have hm := within_restart hp hc
  have hallowance (budget : Nat) : m.allowance none budget = budget := by
    simp only [allowance, hl, Option.or_none, Option.elim_none]
  refine ⟨?_, ?_, ?_⟩
  · have hcut := not_cutOff_of_forward hp hc hf (Nat.le_refl program.length)
    cases hi : m.restart.iterate program.length with
    | mk ending next =>
        have hcycles := cycles_le_of_forward hp hc hf program.length
        rw [hi] at hcycles
        have hn : ending ≠ .exhausted := by
          rintro rfl
          obtain ⟨hs, he⟩ := nth?_of_exhausted hi
          rw [isFinished_of_forward hp hc hf hs (Nat.le_refl _)] at he
          cases he
        obtain ⟨outcome, ho, hof⟩ := h.restart.freeOutcome hi hn
        refine ⟨outcome, next, ?_, hcycles, hof⟩
        intro budget hb
        rw [← hallowance program.length] at hcut
        rw [run_of_not_cutOff hp hc hcut (by rw [hallowance, hallowance]; exact hb),
          run_of_iterate hp hc ((congrArg _ (hallowance _)).trans hi), hl, ← ho]
        rfl
  · intro j k a b hjk ha hb
    obtain ⟨before, hwa, -, -⟩ := hm.pc_of_nth? ha hf
    rw [show k = j + (k - j) by omega, nth?_add ha] at hb
    obtain ⟨after, hwb, -, hpc⟩ := hwa.pc_of_nth? hb hf
    exact ⟨before, after, hwa.cpu_eq, hwb.cpu_eq, by omega⟩
  · intro hs budget result hr hok
    exact result_of_straightLine hp hc hs hr hok

/-- Two branches, of which the second one is taken, over an instruction that would fail. -/
theorem run_of_forward_branches_skip :
    let text := "IN R1\nCMP R1, #5\nBLT small\nB end\nsmall:\nOUT R1\nLDR R2, 300\nend:"
    let m : Machine :=
      { memory := .zeroed 4 (by decide) (by decide), console := { pending := ["7"] } }
    let s := (m.loadText text "skip").2
    let program : Program :=
      { instructions := #[{ text := "IN R1", line := 1 }, { text := "CMP R1, #5", line := 2 },
                          { text := "BLT small", line := 3 }, { text := "B end", line := 4 },
                          { text := "OUT R1", line := 6 }, { text := "LDR R2, 300", line := 7 }]
        labels := { entries := [("small", 4), ("end", 6)] } }
    s.program = some program ∧ program.BranchesForward ∧
      ∃ outcome next, (∀ budget, 6 ≤ budget → s.run none budget = (some outcome, next)) ∧
        next.cycles = 4 ∧ next.FreeOutcome outcome := by
  intro text m s program
  have hm : create 4 { pending := ["7"] } 4 none false = .ok m := rfl
  have hs : s.Consistent 4 := (consistent_create hm).loadText _ _
  have hp : s.program = some program := by decide +kernel
  have hl : s.limit = none := by decide +kernel
  have hf : program.BranchesForward := by decide +kernel
  obtain ⟨⟨outcome, next, hr, -, ho⟩, -⟩ := run_of_forward_branches hs hp hl hf
  have hcycles : (s.run none 6).2.cycles = 4 := by decide +kernel
  rw [hr 6 (Nat.le_refl 6)] at hcycles
  exact ⟨hp, hf, outcome, next, hr, hcycles, ho⟩

end Machine

end RegisterMachine
