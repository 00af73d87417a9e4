import RegisterMachine.Proofs.Instruction.Branches
import RegisterMachine.Proofs.Machine.History
import RegisterMachine.Proofs.Machine.Limits

/-!
# Recent instructions

The instructions that a machine has completed since it was last loaded or last began to run, kept
beside the machine and not in it. A machine that traces has the same list. Whether it traces or not,
its comparison is that of the latest of them that compared anything.
-/

namespace RegisterMachine

/-! ## The latest comparison -/

namespace TraceEntry

def isCompare (entry : TraceEntry) : Bool :=
  entry.decoded.mnemonic == Mnemonic.compare.name

/-- What an entry compared, in the state that it was executed in. -/
def Compared (entry : TraceEntry) (compared : Comparison) : Prop :=
  entry.before.Compares entry.decoded.arguments compared

/-- The last entry that is a comparison. -/
def latestCompare? (entries : List TraceEntry) : Option TraceEntry :=
  entries.reverse.find? isCompare

/-- A comparison is on record exactly if there is one among the entries, and then as the last one
made it. -/
def Recorded (entries : List TraceEntry) (comparison : Option Comparison) : Prop :=
  match latestCompare? entries with
  | none => comparison = none
  | some entry => ∃ compared, comparison = some compared ∧ entry.Compared compared

section
variable {entries : List TraceEntry}

theorem latestCompare?_append (entry : TraceEntry) :
    latestCompare? (entries ++ [entry]) =
      if entry.isCompare then some entry else latestCompare? entries := by
  cases h : entry.isCompare <;> simp [latestCompare?, h]

theorem latestCompare?_eq_none_iff :
    latestCompare? entries = none ↔ ∀ entry ∈ entries, entry.isCompare = false := by
  simp [latestCompare?]

theorem latestCompare?_split (front : List TraceEntry) {entry : TraceEntry}
    (h : entry.isCompare = true) {back : List TraceEntry}
    (hb : ∀ later ∈ back, later.isCompare = false) :
    latestCompare? (front ++ entry :: back) = some entry := by
  have hn : back.reverse.find? isCompare = none := latestCompare?_eq_none_iff.2 hb
  simp [latestCompare?, List.find?_append, hn, h]

variable {comparison : Option Comparison} (hr : Recorded entries comparison)
include hr

theorem Recorded.eq_none_iff :
    comparison = none ↔ ∀ entry ∈ entries, entry.isCompare = false := by
  rw [← latestCompare?_eq_none_iff]
  unfold Recorded at hr
  cases hl : latestCompare? entries with
  | none => simp_all
  | some entry =>
      rw [hl] at hr
      obtain ⟨compared, rfl, -⟩ := hr
      simp

theorem Recorded.compared {entry : TraceEntry} (hl : latestCompare? entries = some entry) :
    ∃ compared, comparison = some compared ∧ entry.Compared compared := by
  unfold Recorded at hr
  rwa [hl] at hr

end

/-- A completed instruction is recorded if it is a comparison, and it is not seen otherwise. -/
theorem Recorded.append {entries : List TraceEntry} {entry : TraceEntry} {layout : Layout}
    {world after : World} (hr : Recorded entries entry.before.comparison)
    (hx : Registry.standard.execute layout entry.before entry.decoded world =
      (.ok entry.after, after)) : Recorded (entries ++ [entry]) entry.after.comparison := by
  unfold Recorded
  rw [latestCompare?_append]
  rcases Registry.comparison_of_execute hx with ⟨hm, compared, hn, hc⟩ | ⟨hm, hn⟩
  · have hi : entry.isCompare = true := by simp [isCompare, hm]
    rw [if_pos hi]
    exact ⟨compared, hn, hc⟩
  · have hi : ¬entry.isCompare = true := by simp [isCompare, hm]
    rw [if_neg hi, hn]
    exact hr

end TraceEntry

namespace Machine

open TraceEntry

/-! ## Keeping the list -/

/-- The instructions that successive steps complete, up to a number of them. -/
def completed (m : Machine) : Nat → List TraceEntry
  | 0 => []
  | k + 1 =>
      match m.step with
      | (.ok (some entry), next) => entry :: next.completed k
      | _ => []

/-- The recent instructions after an operation. A load that succeeds forgets them, and so does the
start of a run. -/
def recentApply (m : Machine) (recent : List TraceEntry) : Operation → List TraceEntry
  | .loadText text file => if (m.loadText text file).1.isOk then [] else recent
  | .loadLines lines file => if (m.loadLines lines file).1.isOk then [] else recent
  | .loadFile read path => if (m.loadFile read path).1.isOk then [] else recent
  | .step =>
      match m.step.1 with
      | .ok (some entry) => recent ++ [entry]
      | _ => recent
  | .run limit budget =>
      if m.isLoaded then m.restart.completed (m.allowance limit budget) else recent
  | _ => recent

def recentAfter (m : Machine) (recent : List TraceEntry) : List Operation → List TraceEntry
  | [] => recent
  | operation :: rest => (m.apply operation).recentAfter (m.recentApply recent operation) rest

/-- The comparison and the trace of a machine, if it has a processor at all, are those of the recent
instructions. -/
structure Recalls (m : Machine) (recent : List TraceEntry) : Prop where
  comparison : ∀ cpu, m.cpu = some cpu → Recorded recent cpu.comparison
  trace : ∀ cpu, m.cpu = some cpu → m.tracing = true → m.trace.toList = recent

/-! ## Steps and runs -/

section
variable {m : Machine} {recent : List TraceEntry}

theorem recalls_of_no_cpu (hc : m.cpu = none) (recent : List TraceEntry) : m.Recalls recent where
  comparison cpu hn := by simp [hc] at hn
  trace cpu hn := by simp [hc] at hn

theorem recalls_nil (hc : ∀ cpu, m.cpu = some cpu → cpu.comparison = none) (ht : m.trace = #[]) :
    m.Recalls [] where
  comparison cpu hn := hc cpu hn
  trace cpu hn hon := by simp [ht]

theorem Recalls.of_eq {next : Machine} (h : m.Recalls recent) (hc : next.cpu = m.cpu)
    (ht : next.trace = m.trace) (hg : next.tracing = m.tracing) : next.Recalls recent where
  comparison cpu hn := h.comparison cpu (hc.symm.trans hn)
  trace cpu hn hon := by
    rw [ht]
    exact h.trace cpu (hc.symm.trans hn) (hg.symm.trans hon)

theorem Recalls.step_ok (h : m.Recalls recent) {entry : TraceEntry} {next : Machine}
    (hs : m.step = (.ok (some entry), next)) : next.Recalls (recent ++ [entry]) := by
  obtain ⟨program, -, hc, -, -, hx⟩ := step_eq_ok hs
  obtain ⟨world, hr, -, he, rfl⟩ := executeAt_eq_ok hx
  have hd : entry.decoded = Decoded.ofText entry.instruction.text := congrArg TraceEntry.decoded he
  rw [← hd] at hr
  rw [complete_eq]
  refine ⟨?_, ?_⟩
  · intro cpu hn
    cases hn
    exact (h.comparison entry.before hc).append hr
  · intro cpu hn hon
    have ht := h.trace entry.before hc hon
    simp only at hon
    simp [hon, ht]

theorem Recalls.step (h : m.Recalls recent) :
    m.step.2.Recalls (m.recentApply recent .step) := by
  cases hs : m.step with
  | mk result next =>
      simp only [recentApply, hs]
      match result with
      | .ok (some entry) => exact h.step_ok hs
      | .ok none =>
          obtain ⟨-, rfl⟩ := step_eq_none hs
          exact h
      | .error failure =>
          have hn := step_eq_error hs
          rw [hn]
          exact h.of_eq rfl rfl rfl

theorem completed_of_isFinished (h : m.isFinished = true) (budget : Nat) :
    m.completed budget = [] := by
  cases budget with
  | zero => rfl
  | succ budget =>
      unfold completed
      split
      next entry next hs =>
        rw [isFinished_of_step_eq_ok hs] at h
        cases h
      next => rfl

/-- An iteration adds the instructions that it completes. -/
theorem Recalls.iterate (h : m.Recalls recent) (budget : Nat) :
    (m.iterate budget).2.Recalls (recent ++ m.completed budget) := by
  -- The list grows by an entry each time that the budget shrinks by one.
  induction budget generalizing m recent with
  | zero =>
      cases hf : m.isFinished with
      | true => simpa [iterate_of_isFinished hf, completed] using h
      | false => simpa [iterate_zero hf, completed] using h
  | succ budget ih =>
      cases hf : m.isFinished with
      | true => simpa [iterate_of_isFinished hf, completed_of_isFinished hf] using h
      | false =>
          cases hs : m.step with
          | mk result next =>
              match result with
              | .ok (some entry) =>
                  have hn := ih (h.step_ok hs)
                  simpa [iterate_succ_of_step_ok hf hs, completed, hs] using hn
              | .ok none =>
                  rw [(step_eq_none hs).1] at hf
                  cases hf
              | .error failure =>
                  have hn := h.step
                  simpa [iterate_succ_of_step_error hf hs, completed, recentApply, hs] using hn

/-- A run starts without a comparison, whatever was compared before. -/
theorem recalls_restart (m : Machine) : m.restart.Recalls [] := by
  refine recalls_nil ?_ rfl
  intro cpu hc
  obtain ⟨before, -, rfl⟩ := Option.map_eq_some_iff.1 hc
  rfl

theorem Recalls.run (h : m.Recalls recent) (limit : Option Int) (budget : Nat) :
    (m.run limit budget).2.Recalls (m.recentApply recent (.run limit budget)) := by
  cases hp : m.program with
  | none => simpa [recentApply, isLoaded, hp, run_of_not_loaded hp] using h
  | some program =>
      cases hc : m.cpu with
      | none =>
          refine recalls_of_no_cpu ?_ _
          simp [Machine.run, hp, hc]
      | some cpu =>
          have hn := (recalls_restart m).iterate (m.allowance limit budget)
          cases hi : m.restart.iterate (m.allowance limit budget) with
          | mk ending next =>
              rw [hi, List.nil_append] at hn
              rw [run_of_iterate hp hc hi]
              simpa [recentApply, isLoaded, hp] using hn

/-! ## Histories -/

theorem recalls_loadParsed (m : Machine) (recent : List TraceEntry)
    (parsed : Except SourceError Program) (file : String) :
    (m.loadParsed parsed file).2.Recalls
      (if (m.loadParsed parsed file).1.isOk then [] else recent) := by
  cases parsed with
  | error e => exact recalls_of_no_cpu rfl _
  | ok program =>
      refine recalls_nil ?_ rfl
      intro cpu hc
      cases hc
      rfl

theorem recalls_loadFile (m : Machine) (recent : List TraceEntry) (read : FileReader)
    (path : String) :
    (m.loadFile read path).2.Recalls
      (if (m.loadFile read path).1.isOk then [] else recent) := by
  unfold loadFile
  split
  next => exact recalls_of_no_cpu rfl _
  next lines _ =>
    have hl := recalls_loadParsed m recent (Program.ofLines lines) path
    have ho (x : Except SourceError Unit) (f : SourceError → Failure LoadError) :
        (x.mapError f).isOk = x.isOk := by
      cases x <;> rfl
    simpa only [loadLines, ho] using hl

theorem Recalls.apply (h : m.Recalls recent) (operation : Operation) :
    (m.apply operation).Recalls (m.recentApply recent operation) := by
  cases operation with
  | loadText text file => exact recalls_loadParsed m recent (Program.ofText text) file
  | loadLines lines file => exact recalls_loadParsed m recent (Program.ofLines lines) file
  | loadFile read path => exact recalls_loadFile m recent read path
  | unload => exact recalls_of_no_cpu rfl _
  | step => exact h.step
  | run limit budget => exact h.run limit budget
  | writeMemory address v =>
      simp only [Machine.apply]
      split
      next next hn =>
        cases hw : m.memory.write address v with
        | error reason => simp [Machine.writeMemory, hw, Except.map] at hn
        | ok memory =>
            simp only [Machine.writeMemory, hw, Except.map, Except.ok.injEq] at hn
            rw [← hn]
            exact h.of_eq rfl rfl rfl
      next => exact h
  | feed lines => exact h.of_eq rfl rfl rfl
  | display => exact h.of_eq rfl rfl rfl
  | printTrace => exact h.of_eq rfl rfl rfl
  | inspect => exact h

theorem Recalls.after (h : m.Recalls recent) (history : List Operation) :
    (m.after history).Recalls (m.recentAfter recent history) := by
  induction history generalizing m recent with
  | nil => exact h
  | cons operation rest ih => exact ih (h.apply operation)

end

theorem recalls_create {room : Nat} {console : Console} {size : Int}
    {limit : Option Int} {tracing : Bool} {m : Machine}
    (h : create room console size limit tracing = .ok m) (recent : List TraceEntry) :
    m.Recalls recent := by
  obtain ⟨count, nonempty, indexed, -, rfl⟩ := create_eq_ok h
  exact recalls_of_no_cpu rfl recent

/-- A machine that traces has the recent instructions in its trace. -/
theorem trace_of_history {room : Nat} {console : Console} {size : Int}
    {limit : Option Int} {tracing : Bool} {m : Machine}
    (h : create room console size limit tracing = .ok m) (history : List Operation)
    {program : Program} (hp : (m.after history).program = some program)
    (ht : (m.after history).tracing = true) :
    (m.after history).trace.toList = m.recentAfter [] history := by
  obtain ⟨cpu, hc, -, -⟩ := ((consistent_create h).after history).loaded hp
  exact ((recalls_create h []).after history).trace cpu hc ht

/-! ## The next instruction -/

section
variable {m : Machine} {size : Int} (h : m.Consistent size) {program : Program} {cpu : Cpu}
  (hp : m.program = some program) (hc : m.cpu = some cpu) {instruction : Instruction}
  (hi : m.current? = some instruction) {relation : Relation} {label : String}
  (hm : (Decoded.ofText instruction.text).mnemonic = (Mnemonic.branchIf relation).name)
  (ha : (Decoded.ofText instruction.text).arguments = [label])
include h hp hc hi hm ha

theorem step_branchIf_of_no_comparison (hn : cpu.comparison = none) :
    m.step =
      (.error (.fault
        { fault := .noComparison (Mnemonic.branchIf relation).name
          site := some (m.siteOf instruction cpu.pc) }), m) := by
  rw [current?_of_loaded hp hc] at hi
  obtain ⟨mnemonic, hat⟩ := h.exists_at hp hc hi
  rw [hat.step,
    executeAt_of_error (Registry.execute_branchIf_of_no_comparison ha m.toWorld hm hn)]
  rfl

variable {compared : Comparison} (hr : cpu.comparison = some compared)
include hr

theorem step_branchIf_of_unknown (hl : program.labels.find? label = none) :
    m.step =
      (.error (.fault
        { fault := .unknownLabel label, site := some (m.siteOf instruction cpu.pc) }), m) := by
  rw [current?_of_loaded hp hc] at hi
  obtain ⟨mnemonic, hat⟩ := h.exists_at hp hc hi
  rw [hat.step, executeAt_of_error (Registry.execute_branchIf_of_unknown ha m.toWorld hm hr hl)]
  rfl

theorem step_branchIf {target : Int} (hl : program.labels.find? label = some target) :
    ∃ entry next, m.step = (.ok (some entry), next) ∧ next.cpu = some entry.after ∧
      entry.after.pc =
        if relation.holds compared.left compared.right then target else cpu.pc + 1 := by
  rw [current?_of_loaded hp hc] at hi
  obtain ⟨mnemonic, hat⟩ := h.exists_at hp hc hi
  have hf : program.layout.labels.find? label = some target := hl
  have hx := Registry.execute_branchIf ha m.toWorld hm hr hf
  rcases h.executeAt_cases hat with ⟨failure, world, hw, -⟩ | ⟨after, world, hw, he⟩
  · rw [hw] at hx
    cases hx
  · rw [hw] at hx
    rw [hat.step, he]
    cases hx
    refine ⟨_, _, rfl, ?_, rfl⟩
    rw [complete_eq]

end

/-- The comparison of a machine is that of the latest comparison since it was last loaded or began
to run, in the state just before that, and there is none without one. The next conditional branch
goes by it. -/
theorem comparison_of_history {room : Nat} {console : Console} {size : Int} {limit : Option Int}
    {tracing : Bool} {m : Machine} (h : create room console size limit tracing = .ok m)
    (history : List Operation) {program : Program}
    (hp : (m.after history).program = some program) :
    ∃ cpu, (m.after history).cpu = some cpu ∧
      (cpu.comparison.isSome = true ↔
        ∃ entry ∈ m.recentAfter [] history, entry.isCompare = true) ∧
      (∀ front entry back, m.recentAfter [] history = front ++ entry :: back →
        entry.isCompare = true → (∀ later ∈ back, later.isCompare = false) →
        ∃ compared, cpu.comparison = some compared ∧ entry.Compared compared) ∧
      ∀ (instruction : Instruction) (relation : Relation) (label : String),
        (m.after history).current? = some instruction →
        (Decoded.ofText instruction.text).mnemonic = (Mnemonic.branchIf relation).name →
        (Decoded.ofText instruction.text).arguments = [label] →
        ((∃ report name, (m.after history).step.1 = .error (.fault report) ∧
            report.fault = .noComparison name) ↔
          ∀ entry ∈ m.recentAfter [] history, entry.isCompare = false) ∧
        ∀ compared target, cpu.comparison = some compared →
          program.labels.find? label = some target →
          ∃ entry next, (m.after history).step = (.ok (some entry), next) ∧
            next.cpu = some entry.after ∧
            entry.after.pc =
              if relation.holds compared.left compared.right then target else cpu.pc + 1 := by
  have hs : (m.after history).Consistent size := (consistent_create h).after history
  obtain ⟨cpu, hc, -, -⟩ := hs.loaded hp
  have hr : Recorded (m.recentAfter [] history) cpu.comparison :=
    ((recalls_create h []).after history).comparison cpu hc
  have hnone := hr.eq_none_iff
  refine ⟨cpu, hc, ?_, ?_, ?_⟩
  · rw [Option.isSome_iff_ne_none, Ne, hnone]
    simp
  · intro front entry back he hcmp hlater
    refine hr.compared ?_
    rw [he]
    exact latestCompare?_split front hcmp hlater
  · intro instruction relation label hi hmn ha
    refine ⟨?_, fun compared target hcmp hl => step_branchIf hs hp hc hi hmn ha hcmp hl⟩
    rw [← hnone]
    cases hcmp : cpu.comparison with
    | none =>
        rw [step_branchIf_of_no_comparison hs hp hc hi hmn ha hcmp]
        simp
    | some compared =>
        refine iff_of_false ?_ nofun
        intro hx
        obtain ⟨report, name, he, hf⟩ := hx
        cases hl : program.labels.find? label with
        | none =>
            rw [step_branchIf_of_unknown hs hp hc hi hmn ha hcmp hl] at he
            cases he
            cases hf
        | some target =>
            obtain ⟨entry, next, hstep, -⟩ := step_branchIf hs hp hc hi hmn ha hcmp hl
            rw [hstep] at he
            cases he

/-- A run that is cut off behind its comparison, after one that compared other values. The branch
goes by the later comparison, though the register that was compared has changed since. -/
theorem comparison_of_history_second_run :
    let history : List Operation :=
      [.loadLines ["CMP R0, #7", "ADD R0, R0, #7", "BEQ end", "OUT R0", "end:"] "input",
        .run none 10, .run (some 1) 0, .writeMemory 0 5, .step]
    let m : Machine := { memory := Memory.zeroed 4 (by decide) (by decide), console := {} }
    create 4 {} 4 none false = .ok m ∧ (m.recentAfter [] history).length = 2 ∧
      ∃ entry next, (m.after history).step = (.ok (some entry), next) ∧ entry.after.pc = 4 := by
  intro history m
  have hm : create 4 {} 4 none false = .ok m := rfl
  have hp : (m.after history).program =
      some
        { instructions := #[{ text := "CMP R0, #7", line := 1 },
                            { text := "ADD R0, R0, #7", line := 2 },
                            { text := "BEQ end", line := 3 }, { text := "OUT R0", line := 4 }]
          labels := { entries := [("end", 4)] } } := by
    decide +kernel
  have hi : (m.after history).current? = some { text := "BEQ end", line := 3 } := by decide +kernel
  have hv : (m.after history).cpu.bind (·.comparison) = some { left := 7, right := 7 } := by
    decide +kernel
  obtain ⟨cpu, hc, -, -, hb⟩ := comparison_of_history hm history hp
  rw [hc, Option.bind_some] at hv
  obtain ⟨-, ht⟩ := hb _ .equal "end" hi (by decide +kernel) (by decide +kernel)
  obtain ⟨entry, next, hs, -, hpc⟩ := ht _ 4 hv rfl
  exact ⟨hm, by decide +kernel, entry, next, hs, hpc⟩

end Machine

end RegisterMachine
