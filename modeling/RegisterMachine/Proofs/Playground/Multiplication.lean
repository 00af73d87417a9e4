import RegisterMachine.Playground.Example
import RegisterMachine.Proofs.Architecture.Runs
import RegisterMachine.Proofs.Playground.Display
import RegisterMachine.Proofs.Text.Lines

/-!
# The multiplication example

The example adds up its first input as often as its second input says, counting that one down to
zero. Words of 32 bits make the count right for a negative second input too: it is counted down past
the least word, and the sum, taken modulo the number of words, is the product.
-/

namespace RegisterMachine

namespace Playground.Multiplication

open Architecture

/-! ## The program -/

def total : Register := ⟨0, by decide⟩

def addend : Register := ⟨1, by decide⟩

def count : Register := ⟨2, by decide⟩

def code : List Command :=
  [.input addend, .input count, .move total (.literal 0), .compare count (.literal 0),
    .branchIf .equal "done", .combine .add total total (.register addend),
    .combine .sub count count (.literal 1), .branch "loop", .output total, .halt]

def program : Program :=
  { instructions :=
      #[{ text := "IN R1", line := 1 }, { text := "IN R2", line := 2 },
        { text := "MOV R0, #0", line := 3 }, { text := "CMP R2, #0", line := 5 },
        { text := "BEQ done", line := 6 }, { text := "ADD R0, R0, R1", line := 7 },
        { text := "SUB R2, R2, #1", line := 8 }, { text := "B loop", line := 9 },
        { text := "OUT R0", line := 11 }, { text := "HALT", line := 12 }]
    labels := { entries := [("loop", 3), ("done", 8)] } }

theorem ofText_programText : Program.ofText Example.multiply.programText = .ok program := by
  decide +kernel

theorem isBlankProgram_programText : isBlankProgram Example.multiply.programText = false := by
  decide +kernel

theorem command?_program : ∀ i < 10, program.command? (i : Nat) = code[i]? := by
  decide +kernel

/-- A command of the program that leads from one address to another. -/
theorem leads_cons {n : Nat} {s t u : State} (i j : Nat) {command : Command}
    (hs : s.pc = i) (ht : t.pc = j) (hi : i < 10) (hj : j ≤ 10) (hc : code[i]? = some command)
    (hst : step program.layout s command = some t) (hu : Leads program n t u) :
    Leads program (n + 1) s u := by
  have hl : (program.length : Int) = 10 := rfl
  refine .step ?_ hst (by omega) (by omega) hu
  rw [hs, command?_program i hi, hc]

/-! ## Stretches of the program -/

theorem step_branchIf {layout : Layout} {s : State} {compared : Comparison} {label : String}
    {target : Int} (hc : s.comparison = some compared)
    (hl : layout.labels.find? label = some target) (relation : Relation) :
    step layout s (.branchIf relation label) =
      some (if Condition relation compared.left compared.right then s.goTo target else s.next) := by
  simp only [step, hc, hl, Option.bind_eq_bind, Option.bind_some, Option.pure_def]

/-- The test in front of the loop leads behind it if the count is zero, and else into it. -/
theorem leads_test {s : State} (hpc : s.pc = 3) :
    ∃ t, Leads program 2 s t ∧ t.registers = s.registers ∧ t.console = s.console ∧
      t.pc = if s.registers count = 0#32 then 8 else 5 := by
  let compared : Comparison := { left := (s.registers count).toInt, right := (Word.bits 0).toInt }
  let s1 : State := { s with comparison := some compared }.next
  have h1 : step program.layout s (.compare count (.literal 0)) = some s1 := rfl
  have hpc1 : s1.pc = 4 := congrArg (· + 1) hpc
  have hb := @step_branchIf program.layout s1 compared "done" 8 rfl rfl .equal
  have hz : Condition .equal compared.left compared.right ↔ s.registers count = 0#32 :=
    (@BitVec.toInt_inj 32 (s.registers count) 0#32)
  by_cases hc : s.registers count = 0#32
  · rw [if_pos (hz.2 hc)] at hb
    refine ⟨s1.goTo 8, ?_, rfl, rfl, by rw [if_pos hc]; rfl⟩
    exact leads_cons 3 4 hpc hpc1 (by decide) (by decide) rfl h1
      (leads_cons 4 8 hpc1 rfl (by decide) (by decide) rfl hb (.refl _))
  · rw [if_neg fun h => hc (hz.1 h)] at hb
    have hpc2 : s1.next.pc = 5 := congrArg (· + 1) hpc1
    refine ⟨s1.next, ?_, rfl, rfl, by rw [if_neg hc]; exact hpc2⟩
    exact leads_cons 3 4 hpc hpc1 (by decide) (by decide) rfl h1
      (leads_cons 4 5 hpc1 hpc2 (by decide) (by decide) rfl hb (.refl _))

/-- The inside of the loop adds once and counts once. -/
theorem leads_body {s : State} (hpc : s.pc = 5) :
    ∃ t, Leads program 3 s t ∧ t.pc = 3 ∧ t.console = s.console ∧
      t.registers total = s.registers total + s.registers addend ∧
      t.registers addend = s.registers addend ∧
      t.registers count = s.registers count - 1#32 := by
  let s1 := (s.set total (s.registers total + s.registers addend)).next
  let s2 := (s1.set count (s1.registers count - 1)).next
  have hpc1 : s1.pc = 6 := congrArg (· + 1) hpc
  have hpc2 : s2.pc = 7 := congrArg (· + 1) hpc1
  have h1 : step program.layout s (.combine .add total total (.register addend)) = some s1 := rfl
  have h2 : step program.layout s1 (.combine .sub count count (.literal 1)) = some s2 := rfl
  have h3 : step program.layout s2 (.branch "loop") = some (s2.goTo 3) := rfl
  refine ⟨s2.goTo 3, ?_, rfl, rfl, rfl, rfl, rfl⟩
  exact leads_cons 5 6 hpc hpc1 (by decide) (by decide) rfl h1
    (leads_cons 6 7 hpc1 hpc2 (by decide) (by decide) rfl h2
      (leads_cons 7 3 hpc2 rfl (by decide) (by decide) rfl h3 (.refl _)))

/-- The end of the program, first the output and then the halt. -/
theorem leads_output {s : State} (hpc : s.pc = 8) :
    ∃ t, Leads program 1 s t ∧ t.pc = 9 ∧
      t.console.outputs = s.console.outputs ++ [toString (s.registers total).toInt] := by
  let s1 := { s with console := s.console.writeLine (toString (s.registers total).toInt) }.next
  have hpc1 : s1.pc = 9 := congrArg (· + 1) hpc
  have h1 : step program.layout s (.output total) = some s1 := rfl
  exact ⟨s1, leads_cons 8 9 hpc hpc1 (by decide) (by decide) rfl h1 (.refl _), hpc1,
    Console.outputs_writeLine _ _⟩

theorem leads_halt {s : State} (hpc : s.pc = 9) :
    ∃ t, Leads program 1 s t ∧ t.pc = 10 ∧ t.console = s.console :=
  ⟨s.goTo 10, leads_cons 9 10 hpc rfl (by decide) (by decide) rfl rfl (.refl _), rfl, rfl⟩

theorem input?_toString {v : Int} (hv : Word.inRange v = true) {console : Console}
    {rest : List String} (hc : console.pending = toString v :: rest) :
    input? console =
      some (Word.bits v,
        { pending := rest, shown := console.shown.push (.prompt inputPrompt) }) := by
  simp only [input?, hc, Word.ofText_toString hv]

/-- The start of the program reads the two numbers and clears the sum. -/
theorem leads_start {a b : Int} (ha : Word.inRange a = true) (hb : Word.inRange b = true)
    {s : State} (hpc : s.pc = 0) (hc : s.console.pending = [toString a, toString b]) :
    ∃ t, Leads program 3 s t ∧ t.pc = 3 ∧ t.console.outputs = s.console.outputs ∧
      t.registers total = 0#32 ∧ t.registers addend = Word.bits a ∧
      t.registers count = Word.bits b := by
  have hi1 := input?_toString ha hc
  let c1 : Console :=
    { pending := [toString b], shown := s.console.shown.push (.prompt inputPrompt) }
  let s1 := ({ s with console := c1 }.set addend (Word.bits a)).next
  have hi2 := @input?_toString b hb c1 [] rfl
  let c2 : Console := { pending := [], shown := c1.shown.push (.prompt inputPrompt) }
  let s2 := ({ s1 with console := c2 }.set count (Word.bits b)).next
  let s3 := (s2.set total 0).next
  have hpc1 : s1.pc = 1 := congrArg (· + 1) hpc
  have hpc2 : s2.pc = 2 := congrArg (· + 1) hpc1
  have hpc3 : s3.pc = 3 := congrArg (· + 1) hpc2
  have h1 : step program.layout s (.input addend) = some s1 := by
    simp only [step, hi1, Option.bind_eq_bind, Option.bind_some, Option.pure_def]
    rfl
  have h2 : step program.layout s1 (.input count) = some s2 := by
    have hi : input? s1.console = _ := hi2
    simp only [step, hi, Option.bind_eq_bind, Option.bind_some, Option.pure_def]
    rfl
  have h3 : step program.layout s2 (.move total (.literal 0)) = some s3 := rfl
  refine ⟨s3, ?_, hpc3, ?_, rfl, rfl, rfl⟩
  · exact leads_cons 0 1 hpc hpc1 (by decide) (by decide) rfl h1
      (leads_cons 1 2 hpc1 hpc2 (by decide) (by decide) rfl h2
        (leads_cons 2 3 hpc2 hpc3 (by decide) (by decide) rfl h3 (.refl _)))
  · exact (outputs_of_input? hi2).trans (outputs_of_input? hi1)

/-! ## The loop -/

section
variable (x y : BitVec 32)

/-- A state in front of the loop, after a number of rounds. -/
structure AtLoop (k : Nat) (s : State) : Prop where
  pc_eq : s.pc = 3
  outputs_eq : s.console.outputs = []
  total_eq : s.registers total = x * BitVec.ofNat 32 k
  addend_eq : s.registers addend = x
  count_eq : s.registers count = y - BitVec.ofNat 32 k

variable {x y}

/-- The count is zero after as many rounds as it stands for, without a sign, and not before. -/
theorem sub_ofNat_eq_zero_iff {k : Nat} (hk : k ≤ y.toNat) :
    y - BitVec.ofNat 32 k = 0#32 ↔ k = y.toNat := by
  have hy := y.isLt
  have hkm : k % 2 ^ 32 = k := Nat.mod_eq_of_lt (by omega)
  rw [BitVec.sub_eq_iff_eq_add, BitVec.zero_add, ← BitVec.toNat_inj, BitVec.toNat_ofNat, hkm]
  exact eq_comm

theorem AtLoop.round {k : Nat} {s : State} (h : AtLoop x y k s) (hk : k < y.toNat) :
    ∃ t, Leads program 5 s t ∧ AtLoop x y (k + 1) t := by
  obtain ⟨u, hu, hregisters, hconsole, hpc⟩ := leads_test h.pc_eq
  have hn : s.registers count ≠ 0#32 := by
    rw [h.count_eq]
    intro h0
    have := (sub_ofNat_eq_zero_iff (Nat.le_of_lt hk)).1 h0
    omega
  rw [if_neg hn] at hpc
  obtain ⟨t, ht, hpc', hconsole', htotal, haddend, hcount⟩ := leads_body hpc
  rw [hregisters] at htotal haddend hcount
  refine ⟨t, hu.trans ht, hpc', ?_, ?_, haddend.trans h.addend_eq, ?_⟩
  · rw [hconsole', hconsole, h.outputs_eq]
  · rw [htotal, h.total_eq, h.addend_eq, BitVec.ofNat_add, BitVec.mul_add, BitVec.mul_one]
  · rw [hcount, h.count_eq, BitVec.ofNat_add, BitVec.sub_sub]

theorem AtLoop.rounds {s : State} (h : AtLoop x y 0 s) {k : Nat} (hk : k ≤ y.toNat) :
    ∃ t, Leads program (5 * k) s t ∧ AtLoop x y k t := by
  induction k with
  | zero => exact ⟨s, .refl s, h⟩
  | succ k ih =>
      obtain ⟨t, ht, hat⟩ := ih (Nat.le_of_succ_le hk)
      obtain ⟨u, hu, hau⟩ := hat.round hk
      exact ⟨u, ht.trans hu, hau⟩

end

/-! ## The whole program -/

/-- The number of rounds that a second number makes. -/
def rounds (b : Int) : Nat :=
  (b % Word.modulus).toNat

theorem toNat_bits (b : Int) : (Word.bits b).toNat = rounds b :=
  BitVec.toNat_ofInt b

/-- The sum after all the rounds is the product, as a word. -/
theorem toInt_total (a b : Int) :
    (Word.bits a * BitVec.ofNat 32 (rounds b)).toInt = Word.wrap (a * b) := by
  have hr : BitVec.ofNat 32 (rounds b) = Word.bits b := by
    rw [← toNat_bits, BitVec.ofNat_toNat, BitVec.setWidth_eq]
  rw [hr, Word.bits, Word.bits, ← BitVec.ofInt_mul]
  exact Word.toInt_bits (a * b)

section
variable {a b : Int} (ha : Word.inRange a = true) (hb : Word.inRange b = true) {s : State}
  (hpc : s.pc = 0) (hp : s.console.pending = [toString a, toString b])
  (ho : s.console.outputs = [])
include ha hb hpc hp ho

/-- The way to the output: three commands, five for each round, and the last test. -/
theorem leads_to_output :
    ∃ t, Leads program (5 + 5 * rounds b) s t ∧ t.pc = 8 ∧ t.console.outputs = [] ∧
      (t.registers total).toInt = Word.wrap (a * b) := by
  obtain ⟨u, hu, hupc, huout, htotal, haddend, hcount⟩ := leads_start ha hb hpc hp
  have hloop : AtLoop (Word.bits a) (Word.bits b) 0 u := by
    refine ⟨hupc, huout.trans ho, ?_, haddend, ?_⟩
    · rw [htotal, BitVec.mul_zero]
    · rw [hcount, BitVec.sub_zero]
  have hle : rounds b ≤ (Word.bits b).toNat := Nat.le_of_eq (toNat_bits b).symm
  obtain ⟨v, hv, hat⟩ := hloop.rounds hle
  obtain ⟨t, ht, hregisters, hconsole, htpc⟩ := leads_test hat.pc_eq
  have hz : v.registers count = 0#32 := by
    rw [hat.count_eq]
    exact (sub_ofNat_eq_zero_iff hle).2 (toNat_bits b).symm
  rw [if_pos hz] at htpc
  refine ⟨t, ?_, htpc, ?_, ?_⟩
  · rw [show 5 + 5 * rounds b = 3 + 5 * rounds b + 2 by omega]
    exact (hu.trans hv).trans ht
  · rw [hconsole, hat.outputs_eq]
  · rw [hregisters, hat.total_eq, toInt_total]

/-- The state after any number of commands up to the end, and what is written by then. -/
theorem leads_of_le {n : Nat} (hn : n ≤ 7 + 5 * rounds b) :
    ∃ t, Leads program n s t ∧
      t.console.outputs =
        (if n ≤ 5 + 5 * rounds b then [] else [toString (Word.wrap (a * b))]) ∧
      (n = 7 + 5 * rounds b → t.pc = 10) ∧
      (n < 7 + 5 * rounds b → ∃ k u, Leads program (k + 1) t u) := by
  obtain ⟨u, hu, hupc, huout, htotal⟩ := leads_to_output ha hb hpc hp ho
  obtain ⟨v, hv, hvpc, hvout⟩ := leads_output hupc
  obtain ⟨w, hw, hwpc, hwout⟩ := leads_halt hvpc
  rw [huout, htotal, List.nil_append] at hvout
  by_cases hle : n ≤ 5 + 5 * rounds b
  · obtain ⟨t, ht, hr⟩ := hu.split hle
    have hpre : t.console.outputs <+: u.console.outputs := hr.outputs
    rw [huout] at hpre
    refine ⟨t, ht, ?_, by omega, ?_⟩
    · rw [if_pos hle, List.prefix_nil.1 hpre]
    · intro _
      exact ⟨_, _, hr.trans hv⟩
  · rw [if_neg hle]
    by_cases hlast : n = 7 + 5 * rounds b
    · refine ⟨w, ?_, by rw [hwout, hvout], fun _ => hwpc, by omega⟩
      rw [hlast, show 7 + 5 * rounds b = 5 + 5 * rounds b + 1 + 1 by omega]
      exact (hu.trans hv).trans hw
    · refine ⟨v, ?_, hvout, by omega, fun _ => ⟨0, w, hw⟩⟩
      rw [show n = 5 + 5 * rounds b + 1 by omega]
      exact hu.trans hv

end

/-! ## The inputs -/

theorem isBlank_of_mem_toString {v : Int} {c : Char} (hc : c ∈ (toString v).toList) :
    Text.isBlank c = false := by
  have hd : ∀ d ∈ Nat.toDigits 10 v.natAbs, Text.isBlank d = false := by
    intro d hd
    exact Text.isBlank_of_isDigit (Nat.isDigit_of_mem_toDigits (by decide) (by decide) hd)
  by_cases hv : v < 0
  · rw [Text.toList_toString_of_neg hv, List.mem_cons] at hc
    rcases hc with rfl | hc
    · rfl
    · exact hd c hc
  · obtain ⟨n, rfl⟩ := Int.eq_ofNat_of_zero_le (Int.not_lt.1 hv)
    rw [Text.toList_toString_natCast] at hc
    exact hd c hc

theorem toList_toString_ne_nil (v : Int) : (toString v).toList ≠ [] := by
  by_cases hv : v < 0
  · rw [Text.toList_toString_of_neg hv]
    exact List.cons_ne_nil _ _
  · obtain ⟨n, rfl⟩ := Int.eq_ofNat_of_zero_le (Int.not_lt.1 hv)
    rw [Text.toList_toString_natCast]
    exact Nat.toDigits_ne_nil

theorem isLineBreak_of_not_blank {c : Char} (h : Text.isBlank c = false) :
    Text.isLineBreak c = false := by
  simp only [Text.isBlank, Text.isLineBreak, Bool.or_eq_false_iff, Bool.and_eq_false_iff,
    decide_eq_false_iff_not, beq_eq_false_iff_ne] at h ⊢
  omega

/-- Numbers on lines of their own are the lines of input. -/
theorem inputLines_joinLines (numbers : List Int) :
    inputLines (Text.joinLines (numbers.map toString)) = numbers.map toString := by
  let pieces := numbers.map fun v : Int => (toString v).toList
  have hpieces : (numbers.map (toString : Int → String)).map String.toList = pieces :=
    List.map_map
  have hmem : ∀ piece ∈ pieces, piece ≠ [] ∧ ∀ c ∈ piece, Text.isBlank c = false := by
    intro piece hp
    obtain ⟨v, -, rfl⟩ := List.mem_map.1 hp
    exact ⟨toList_toString_ne_nil v, fun c => isBlank_of_mem_toString⟩
  have hlines : Text.lines (Text.joinLines (numbers.map toString)).toList = pieces := by
    have hbreak : ∀ piece ∈ pieces, ∀ c ∈ piece, Text.isLineBreak c = false := by
      intro piece hp c hc
      exact isLineBreak_of_not_blank ((hmem piece hp).2 c hc)
    have hlast : pieces.getLast? ≠ some [] := fun h =>
      (hmem [] (List.mem_of_getLast? h)).1 rfl
    rw [Text.joinLines, String.toList_intercalate, hpieces,
      Text.lines_intercalate hbreak (by decide), Text.dropEmptyLast, if_neg hlast]
  have hfilter : pieces.filter (fun line => !(Text.trim line).isEmpty) = pieces := by
    refine List.filter_eq_self.2 fun piece hp => ?_
    obtain ⟨hn, hw⟩ := hmem piece hp
    have ht := Text.trim_append_of_word hw hn []
    rw [List.append_nil] at ht
    rw [ht]
    simpa [Text.trimEnd] using hn
  rw [inputLines, hlines, hfilter, ← hpieces]
  simp

/-! ## The run -/

def summary (status : String) (cycles : Int) (traceback : List String) : String :=
  "\n".intercalate <|
    ["EXECUTION SUMMARY", Text.rule '=' 40, s!"Status: {status}", s!"Cycles: {cycles}",
      "Instructions: 10", "Labels: \x7b'loop': 3, 'done': 8\x7d"] ++ traceback

theorem summaryText_eq {m : Machine} (hp : m.program = some program) (result : RunResult) :
    summaryText m result =
      summary (if result.ok then "Completed" else "Aborted") result.cycles
        (if result.ok then [] else ["", result.traceback]) := by
  have hi : m.instructionTexts.length = 10 := by simp only [Machine.instructionTexts, hp]; rfl
  have hl : namedMapping m.labels = "\x7b'loop': 3, 'done': 8\x7d" := by
    simp only [Machine.labels, hp, Option.elim_some]
    decide +kernel
  simp only [summaryText, summary, hi, hl]
  rfl

section
variable {a b : Int} (ha : Word.inRange a = true) (hb : Word.inRange b = true)
include ha hb

/-- The machine after any number of steps up to the end of the program. -/
theorem nth?_of_le {n : Nat} (hn : n ≤ 7 + 5 * rounds b) :
    ∃ s cpu, (loaded (Text.joinLines [toString a, toString b]) program).nth? n = some s ∧
      s.Within program editorFile cpu ∧ cpu.cycles = n ∧
      s.console.outputs =
        (if n ≤ 5 + 5 * rounds b then [] else [toString (Word.wrap (a * b))]) ∧
      (s.isFinished = true ↔ n = 7 + 5 * rounds b) := by
  let m := loaded (Text.joinLines [toString a, toString b]) program
  have hpending : m.console.pending = [toString a, toString b] := inputLines_joinLines [a, b]
  have hwithin : m.Within program editorFile Cpu.initial :=
    ⟨rfl, rfl, rfl, Int.le_refl 0, Int.natCast_nonneg _⟩
  have hshows : m.Shows program editorFile (State.of Cpu.initial m.toWorld) :=
    ⟨⟨Cpu.initial, hwithin, Cpu.holdsWords_initial, Int.le_refl 0, rfl⟩,
      Memory.holdsWords_zeroed _ (by decide) (by decide)⟩
  obtain ⟨t, ht, hout, hlast, hgoes⟩ :=
    leads_of_le ha hb (s := State.of Cpu.initial m.toWorld) rfl hpending rfl hn
  obtain ⟨s, hs, hst⟩ := hshows.leads ht
  obtain ⟨cpu, hw, -, hcycles⟩ := hwithin.nth? hs
  have hpc : cpu.pc = t.pc := by
    obtain ⟨other, ho, -, -, rfl⟩ := hst.within
    obtain rfl : other = cpu := Option.some.inj (ho.cpu_eq.symm.trans hw.cpu_eq)
    rfl
  have hconsole : s.console = t.console := by
    obtain ⟨other, -, -, -, rfl⟩ := hst.within
    rfl
  refine ⟨s, cpu, hs, hw, ?_, by rw [hconsole, hout], ?_⟩
  · rw [hcycles]
    exact Int.zero_add _
  · rw [hst.isFinished, decide_eq_true_eq]
    have hl : (program.length : Int) = 10 := rfl
    constructor
    · intro hle
      by_contra hne
      obtain ⟨k, u, hu⟩ := hgoes (by omega)
      cases hu with
      | step code _ _ _ _ =>
          obtain ⟨instruction, hi, -⟩ := Option.bind_eq_some_iff.1 code
          rw [← hpc] at hi hle
          have hlt := Program.lt_length_of_fetch? hw.pc_nonneg hi
          omega
    · intro he
      exact Int.le_of_eq (hl.trans (hlast he).symm)

theorem run_completed {limit : Int} (hl : (7 + 5 * rounds b : Nat) ≤ limit) :
    ∃ display, run Example.multiply.programText (Text.joinLines [toString a, toString b]) limit =
        .ok display ∧
      display.output = toString (Word.wrap (a * b)) ∧
      display.summary = summary "Completed" (7 + 5 * rounds b : Nat) [] := by
  obtain ⟨s, cpu, hs, hw, hcycles, hout, hfinished⟩ := nth?_of_le ha hb (Nat.le_refl _)
  have hi : (loaded (Text.joinLines [toString a, toString b]) program).iterate limit.toNat =
      (.finished, s) := by
    rw [show limit.toNat = 7 + 5 * rounds b + (limit.toNat - (7 + 5 * rounds b)) by omega,
      Machine.iterate_add hs, Machine.iterate_of_isFinished (hfinished.2 rfl)]
  rw [if_neg (by omega)] at hout
  refine ⟨displayOf s (s.resultWith true none), ?_, ?_, ?_⟩
  · rw [run_of_ofText isBlankProgram_programText ofText_programText]
    simp only [Machine.runWithin, restart_loaded, hi]
    rfl
  · simp only [displayOf, hout]
    rfl
  · simp only [displayOf, summaryText_eq hw.program_eq, hw.resultWith, hcycles]
    rfl

/-- A limit that is too low cuts the run off, and has to be written in the report then. -/
theorem run_aborted {limit : Int} (hl : limit < (7 + 5 * rounds b : Nat)) :
    if Text.isWritable limit then
      ∃ display,
        run Example.multiply.programText (Text.joinLines [toString a, toString b]) limit =
          .ok display ∧
        display.output =
          (if limit ≤ (5 + 5 * rounds b : Nat) then "" else toString (Word.wrap (a * b))) ∧
        ∃ line : Int, display.summary =
          summary "Aborted" (max limit 0)
            ["", s!"Traceback:\n> File \"{editorFile}\", line {line}\nRuntimeError: " ++
              s!"Max cycles ({limit}) exceeded"]
    else
      run Example.multiply.programText (Text.joinLines [toString a, toString b]) limit =
        .error .unwritable := by
  have hlt : limit.toNat < 7 + 5 * rounds b := by omega
  obtain ⟨s, cpu, hs, hw, hcycles, hout, hfinished⟩ := nth?_of_le ha hb (Nat.le_of_lt hlt)
  have hn : s.isFinished = false := by
    rw [← Bool.not_eq_true, hfinished]
    omega
  have hi : (loaded (Text.joinLines [toString a, toString b]) program).iterate limit.toNat =
      (.exhausted, s) := (Machine.iterate_add hs 0).trans (Machine.iterate_zero hn)
  obtain ⟨instruction, hins⟩ :=
    Program.exists_fetch? hw.pc_nonneg (hw.pc_lt_of_isFinished hn)
  rw [run_of_ofText isBlankProgram_programText ofText_programText]
  simp only [Machine.runWithin, restart_loaded, hi]
  by_cases hwritable : Text.isWritable limit = true
  · rw [if_pos hwritable, Machine.limitFailure_of_writable hwritable]
    refine ⟨displayOf s (s.resultWith false (some (s.limitReport limit))), rfl, ?_,
      instruction.line, ?_⟩
    · simp only [displayOf, hout]
      by_cases hle : limit ≤ (5 + 5 * rounds b : Nat)
      · rw [if_pos hle, if_pos (by omega)]
        rfl
      · rw [if_neg hle, if_neg (by omega)]
        rfl
    · have hmax : (limit.toNat : Int) = max limit 0 := by omega
      simp only [displayOf, summaryText_eq hw.program_eq, hw.resultWith, hw.limitReport hins,
        hcycles, hmax]
      rfl
  · rw [if_neg hwritable, Machine.limitFailure_of_not_writable (eq_false_of_ne_true hwritable)]
    rfl

end

/-- The multiplication example multiplies any two machine words. It takes seven cycles and five more
for each unit of the second word, read without its sign. If that many are allowed, it completes in
exactly so many and has written the product, wrapped to a word. If fewer are allowed, it is aborted
by the limit after as many cycles as that allows; the product is then written if only the halt was
missing, and nothing is if more was. A limit that cuts it off and cannot be written itself leaves
no display. -/
theorem multiply_correct {a b : Int} (ha : Word.inRange a = true) (hb : Word.inRange b = true)
    {amount : Amount} {limit : Int} (hl : amount.cycles = .ok limit) :
    let cycles := 7 + 5 * (b % Word.modulus)
    let outcome :=
      runFor Example.multiply.programText (Text.joinLines [toString a, toString b]) amount
    (cycles ≤ limit →
      ∃ display, outcome = .ok display ∧ display.output = toString (Word.wrap (a * b)) ∧
        display.summary = summary "Completed" cycles []) ∧
    (limit < cycles → Text.isWritable limit = true →
      ∃ display, outcome = .ok display ∧
        (∃ line : Int, display.summary =
          summary "Aborted" (max limit 0)
            ["", s!"Traceback:\n> File \"{editorFile}\", line {line}\nRuntimeError: " ++
              s!"Max cycles ({limit}) exceeded"]) ∧
        (limit = cycles - 1 → display.output = toString (Word.wrap (a * b))) ∧
        (limit < cycles - 1 → display.output = "")) ∧
    (limit < cycles → Text.isWritable limit = false → outcome = .error .unwritable) := by
  intro cycles outcome
  have hc : cycles = (7 + 5 * rounds b : Nat) := by
    have h0 : 0 ≤ b % (Word.modulus : Int) := Int.emod_nonneg b (by decide)
    simp only [cycles, rounds]
    omega
  have ho : outcome =
      run Example.multiply.programText (Text.joinLines [toString a, toString b]) limit :=
    runFor_of_cycles hl _ _
  rw [hc, ho]
  refine ⟨run_completed ha hb, ?_, ?_⟩
  · intro hlt hw
    have haborted := run_aborted ha hb hlt
    rw [if_pos hw] at haborted
    obtain ⟨display, hrun, hout, hsummary⟩ := haborted
    refine ⟨display, hrun, hsummary, ?_, ?_⟩
    · intro he
      rw [hout, if_neg (by omega)]
    · intro hle
      rw [hout, if_pos (by omega)]
  · intro hlt hw
    have haborted := run_aborted ha hb hlt
    rwa [if_neg (ne_true_of_eq_false hw)] at haborted

/-- A second number of minus one, which takes some twenty thousand million cycles; and a limit that
cannot be written. -/
theorem multiply_correct_minus_one :
    (∃ display, runFor Example.multiply.programText "7\n-1" (.whole 21474836482) = .ok display ∧
      display.output = "-7" ∧ display.summary = summary "Completed" 21474836482 []) ∧
    runFor Example.multiply.programText "7\n-1" (.whole (-(Text.unwritable : Int))) =
      .error .unwritable := by
  have hi : Text.joinLines [toString (7 : Int), toString (-1 : Int)] = "7\n-1" := by decide +kernel
  have hp : toString (Word.wrap (7 * -1)) = "-7" := by decide +kernel
  obtain ⟨hcompleted, -⟩ :=
    @multiply_correct 7 (-1) (by decide) (by decide) (.whole 21474836482) 21474836482 rfl
  obtain ⟨display, hrun, hout, hsummary⟩ := hcompleted (by decide)
  obtain ⟨-, -, hcrash⟩ :=
    @multiply_correct 7 (-1) (by decide) (by decide) (.whole (-(Text.unwritable : Int))) _ rfl
  have hmod : 0 ≤ (-1 : Int) % Word.modulus := Int.emod_nonneg _ (by decide)
  rw [hi] at hrun hcrash
  rw [hp] at hout
  exact ⟨⟨display, hrun, hout, hsummary⟩, hcrash (by omega) Text.isWritable_neg_unwritable⟩

end Playground.Multiplication

end RegisterMachine
