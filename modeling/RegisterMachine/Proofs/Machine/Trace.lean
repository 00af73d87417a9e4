import RegisterMachine.Proofs.Instruction.World
import RegisterMachine.Proofs.Machine.Completed

/-!
# Traces without gaps

The entries of a trace make a chain: each one starts where the one before it ended, the first at the
start of the program and the last at the present state. Trace, cycle count and processor are set in
different places, and no operation takes them apart, whether it fails or not.
-/

namespace RegisterMachine

/-- An entry is about the instruction that a program has at the entry's program counter, and what it
has done: one cycle, with a change of one register at most. -/
structure TraceEntry.Records (entry : TraceEntry) (program : Program) : Prop where
  pc_nonneg : 0 ≤ entry.before.pc
  fetched : program.fetch? entry.before.pc = some entry.instruction
  decoded : entry.decoded = Decoded.ofText entry.instruction.text
  cycles : entry.after.cycles = entry.before.cycles + 1
  registers : ∃ r : Register, ∀ q, q ≠ r → entry.after.read q = entry.before.read q

structure Cpu.AtStart (cpu : Cpu) : Prop where
  pc : cpu.pc = 0
  comparison : cpu.comparison = none
  cycles : cpu.cycles = 0

/-! ## Chains -/

inductive Chain (program : Program) : Cpu → List TraceEntry → Cpu → Prop
  | nil (cpu : Cpu) : Chain program cpu [] cpu
  | cons {start finish : Cpu} {entry : TraceEntry} {rest : List TraceEntry} :
      entry.before = start → entry.Records program → Chain program entry.after rest finish →
      Chain program start (entry :: rest) finish

namespace Chain

variable {program : Program} {start finish : Cpu} {entries : List TraceEntry}
  (h : Chain program start entries finish)
include h

theorem append {entry : TraceEntry} (hb : entry.before = finish) (hr : entry.Records program) :
    Chain program start (entries ++ [entry]) entry.after := by
  induction h with
  | nil cpu => exact .cons hb hr (.nil entry.after)
  | cons hs hf _ ih => exact .cons hs hf (ih hb)

theorem cycles_eq : finish.cycles = start.cycles + entries.length := by
  induction h with
  | nil cpu => simp
  | cons hs hr _ ih =>
      have hc := hr.cycles
      rw [ih, List.length_cons, ← hs]
      omega

theorem records {entry : TraceEntry} (he : entry ∈ entries) : entry.Records program := by
  induction h with
  | nil cpu => cases he
  | cons _ hr _ ih =>
      rcases List.mem_cons.1 he with rfl | he
      · exact hr
      · exact ih he

theorem cycle_eq {k : Nat} {entry : TraceEntry} (hk : entries[k]? = some entry) :
    entry.cycle = start.cycles + k := by
  induction h generalizing k with
  | nil cpu => simp at hk
  | cons hs hr _ ih =>
      rw [← hs]
      cases k with
      | zero =>
          cases hk
          simp [TraceEntry.cycle]
      | succ k =>
          have hc := hr.cycles
          rw [List.getElem?_cons_succ] at hk
          rw [ih hk]
          omega

theorem first {entry : TraceEntry} (he : entries[0]? = some entry) : entry.before = start := by
  cases h with
  | nil => simp at he
  | cons hs _ _ =>
      cases he
      exact hs

theorem linked {k : Nat} {entry following : TraceEntry} (hk : entries[k]? = some entry)
    (hn : entries[k + 1]? = some following) : following.before = entry.after := by
  induction h generalizing k with
  | nil cpu => simp at hk
  | cons _ _ hrest ih =>
      rw [List.getElem?_cons_succ] at hn
      cases k with
      | zero =>
          cases hk
          exact hrest.first hn
      | succ k =>
          rw [List.getElem?_cons_succ] at hk
          exact ih hk hn

theorem last {entry : TraceEntry} (he : entries.getLast? = some entry) : entry.after = finish := by
  induction h with
  | nil cpu => simp at he
  | cons _ _ hrest ih =>
      cases hrest with
      | nil =>
          cases he
          rfl
      | cons _ _ _ =>
          rw [List.getLast?_cons_cons] at he
          exact ih he

end Chain

namespace Machine

/-! ## The invariant -/

/-- The trace of a machine that traces is a chain from the start of its program to its present
state. That of one that does not is empty. -/
structure Traces (m : Machine) (size : Int) (tracing : Bool) : Prop where
  consistent : m.Consistent size
  tracing_eq : m.tracing = tracing
  chain : tracing = true → ∀ program cpu, m.program = some program → m.cpu = some cpu →
    ∃ start : Cpu, start.AtStart ∧ Chain program start m.trace.toList cpu
  silent : tracing = false → m.trace = #[]

section
variable {m : Machine} {size : Int} {tracing : Bool}

theorem traces_of_start (hc : m.Consistent size) (ht : m.tracing = tracing) (he : m.trace = #[])
    (hs : ∀ cpu, m.cpu = some cpu → cpu.AtStart) : m.Traces size tracing where
  consistent := hc
  tracing_eq := ht
  chain := by
    intro _ program cpu _ hcpu
    rw [he]
    exact ⟨cpu, hs cpu hcpu, .nil cpu⟩
  silent := fun _ => he

theorem Traces.of_eq (h : m.Traces size tracing) {next : Machine} (hc : next.Consistent size)
    (hp : next.program = m.program) (hcpu : next.cpu = m.cpu) (he : next.trace = m.trace)
    (ht : next.tracing = m.tracing) : next.Traces size tracing where
  consistent := hc
  tracing_eq := ht.trans h.tracing_eq
  chain := by
    rw [hp, hcpu, he]
    exact h.chain
  silent := by
    rw [he]
    exact h.silent

end

/-- A completed instruction makes a record of the program that it is in. -/
theorem records_of_step {m next : Machine} {size : Int} (h : m.Consistent size) {entry : TraceEntry}
    (hs : m.step = (.ok (some entry), next)) {program : Program} (hp : m.program = some program) :
    entry.Records program := by
  obtain ⟨program', world, hp', hc, hf, hd, hr, -⟩ := step_completes hs
  obtain rfl : program' = program := Option.some.inj (hp'.symm.trans hp)
  exact
    { pc_nonneg := (h.fits program' entry.before hp hc).pc_nonneg
      fetched := hf
      decoded := hd
      cycles := Registry.cycles_of_execute hr
      registers := Registry.registers_of_execute hr }

namespace Traces

variable {m : Machine} {size : Int} {tracing : Bool} (h : m.Traces size tracing)
include h

/-! ## Steps -/

theorem step_ok {entry : TraceEntry} {next : Machine} (hs : m.step = (.ok (some entry), next)) :
    next.Traces size tracing := by
  obtain ⟨program, world, hp, hc, -, -, -, hn⟩ := step_completes hs
  have hprogram : next.program = some program := by rw [hn, hp]
  have hcpu : next.cpu = some entry.after := by rw [hn]
  have htrace : next.trace = if tracing then m.trace.push entry else m.trace := by
    rw [hn, h.tracing_eq]
  refine ⟨h.consistent.of_step hs, by rw [hn, h.tracing_eq], ?_, ?_⟩
  · intro hon program' cpu hp' hc'
    obtain rfl : program = program' := Option.some.inj (hprogram.symm.trans hp')
    obtain rfl : entry.after = cpu := Option.some.inj (hcpu.symm.trans hc')
    obtain ⟨start, hs0, hchain⟩ := h.chain hon program entry.before hp hc
    refine ⟨start, hs0, ?_⟩
    rw [htrace, if_pos hon, Array.toList_push]
    exact hchain.append rfl (records_of_step h.consistent hs hp)
  · intro hoff
    rw [htrace, hoff]
    exact h.silent hoff

theorem step_error {failure : Failure Report} {next : Machine}
    (hs : m.step = (.error failure, next)) : next.Traces size tracing := by
  have hc := h.consistent.of_step hs
  have hn := step_eq_error hs
  rw [hn] at hc ⊢
  exact h.of_eq hc rfl rfl rfl rfl

theorem step : m.step.2.Traces size tracing := by
  cases hs : m.step with
  | mk result next =>
      cases result with
      | error failure => exact h.step_error hs
      | ok done =>
          cases done with
          | none =>
              obtain ⟨-, rfl⟩ := step_eq_none hs
              exact h
          | some entry => exact h.step_ok hs

/-! ## Runs -/

theorem restart : m.restart.Traces size tracing := by
  refine traces_of_start h.consistent.restart h.tracing_eq rfl ?_
  intro cpu hc
  obtain ⟨before, -, rfl⟩ := Option.map_eq_some_iff.1 hc
  exact ⟨rfl, rfl, rfl⟩

theorem run (limit : Option Int) (budget : Nat) : (m.run limit budget).2.Traces size tracing := by
  cases hp : m.program with
  | none =>
      rw [run_of_not_loaded hp]
      exact h
  | some program =>
      obtain ⟨cpu, hc, -, -⟩ := h.consistent.loaded hp
      exact run_invariant (P := fun s _ => s.Traces size tracing)
        (fun s entries entry next hs hstep => hs.step_ok hstep)
        (fun s entries failure next hs hstep => hs.step_error hstep) hp hc h.restart limit budget

/-! ## Histories -/

theorem unload : m.unload.Traces size tracing := by
  refine traces_of_start h.consistent.unload h.tracing_eq rfl ?_
  intro cpu hc
  cases hc

theorem loadParsed {parsed : Except SourceError Program} {file : String}
    (hc : (m.loadParsed parsed file).2.Consistent size) :
    (m.loadParsed parsed file).2.Traces size tracing := by
  cases parsed with
  | error e => exact h.unload
  | ok program =>
      refine traces_of_start hc h.tracing_eq rfl ?_
      intro cpu hcpu
      cases hcpu
      exact ⟨rfl, rfl, rfl⟩

theorem loadFile (read : FileReader) (path : String) :
    (m.loadFile read path).2.Traces size tracing := by
  unfold Machine.loadFile
  split
  next => exact h.unload
  next lines _ => exact h.loadParsed (h.consistent.loadLines lines path)

theorem writeMemory {next : Machine} {address v : Int} (hn : m.writeMemory address v = .ok next) :
    next.Traces size tracing := by
  have hc := h.consistent.writeMemory hn
  obtain ⟨memory, -, rfl⟩ := writeMemory_eq_ok hn
  exact h.of_eq hc rfl rfl rfl rfl

theorem apply (operation : Operation) : (m.apply operation).Traces size tracing := by
  cases operation with
  | loadText text file => exact h.loadParsed (h.consistent.loadText text file)
  | loadLines lines file => exact h.loadParsed (h.consistent.loadLines lines file)
  | loadFile read path => exact h.loadFile read path
  | unload => exact h.unload
  | step => exact h.step
  | run limit budget => exact h.run limit budget
  | writeMemory address v =>
      simp only [Machine.apply]
      split
      next next hn => exact h.writeMemory hn
      next => exact h
  | feed lines => exact h.of_eq (h.consistent.withConsole _) rfl rfl rfl rfl
  | display => exact h.of_eq (h.consistent.withConsole _) rfl rfl rfl rfl
  | printTrace => exact h.of_eq (h.consistent.withConsole _) rfl rfl rfl rfl
  | inspect => exact h

theorem after (history : List Operation) : (m.after history).Traces size tracing := by
  induction history generalizing m with
  | nil => exact h
  | cons operation rest ih => exact ih (h.apply operation)

end Traces

theorem traces_create {room : Nat} {console : Console} {size : Int}
    {limit : Option Int} {tracing : Bool} {m : Machine}
    (h : create room console size limit tracing = .ok m) : m.Traces size tracing := by
  have hc := consistent_create h
  obtain ⟨count, nonempty, indexed, -, rfl⟩ := create_eq_ok h
  refine traces_of_start hc rfl rfl ?_
  intro cpu hcpu
  cases hcpu

/-! ## Traces of a history -/

/-- The trace of a machine says of each cycle what was executed in it, and from which state to
which, without a gap from the start of the program to the present state. -/
structure Faithful (m : Machine) : Prop where
  size_eq : (m.trace.size : Int) = m.cycles
  cycle_eq : ∀ (k : Nat) (entry : TraceEntry), m.trace[k]? = some entry → entry.cycle = k
  records : ∀ entry ∈ m.trace, ∃ program, m.program = some program ∧ entry.Records program
  linked : ∀ (k : Nat) (entry following : TraceEntry), m.trace[k]? = some entry →
    m.trace[k + 1]? = some following → following.before = entry.after
  first : ∀ entry : TraceEntry, m.trace[0]? = some entry → entry.before.AtStart
  last : ∀ entry : TraceEntry, m.trace.back? = some entry → m.cpu = some entry.after

theorem Traces.faithful {m : Machine} {size : Int} (h : m.Traces size true) : m.Faithful := by
  cases hp : m.program with
  | none =>
      obtain ⟨hc, ht⟩ := h.consistent.not_loaded hp
      constructor <;> simp [ht, cycles, hc]
  | some program =>
      obtain ⟨cpu, hc, -, -⟩ := h.consistent.loaded hp
      obtain ⟨start, hs, hchain⟩ := h.chain rfl program cpu hp hc
      exact
        { size_eq := by
            have hcycles := hchain.cycles_eq
            rw [hs.cycles, Array.length_toList] at hcycles
            simp [cycles, hc, hcycles]
          cycle_eq := by
            intro k entry hk
            rw [← Array.getElem?_toList] at hk
            have hcycle := hchain.cycle_eq hk
            rwa [hs.cycles, Int.zero_add] at hcycle
          records := by
            intro entry he
            exact ⟨program, hp, hchain.records (Array.mem_toList_iff.2 he)⟩
          linked := by
            intro k entry following hk hn
            rw [← Array.getElem?_toList] at hk hn
            exact hchain.linked hk hn
          first := by
            intro entry he
            rw [← Array.getElem?_toList] at he
            rw [hchain.first he]
            exact hs
          last := by
            intro entry he
            rw [← Array.getLast?_toList] at he
            rw [hc, hchain.last he] }

/-- The result of a run is about the machine that the run has led to. -/
theorem result_of_run {m : Machine} {size : Int} (h : m.Consistent size) {limit : Option Int}
    {budget : Nat} {result : RunResult} (hr : (m.run limit budget).1 = some (.ok result)) :
    result.trace = (m.run limit budget).2.trace ∧
      result.cycles = (m.run limit budget).2.cycles := by
  cases hp : m.program with
  | none =>
      obtain ⟨hc, ht⟩ := h.not_loaded hp
      rw [run_of_not_loaded hp] at hr ⊢
      cases hr
      simp [ht, cycles, hc]
  | some program =>
      obtain ⟨cpu, hc, -, -⟩ := h.loaded hp
      cases hi : m.restart.iterate (m.allowance limit budget) with
      | mk ending next =>
          rw [run_of_iterate hp hc hi] at hr ⊢
          rcases resultOf_eq_ok hr with ⟨-, rfl⟩ | ⟨report, -, rfl⟩ | ⟨bound, -, -, -, rfl⟩ <;>
            exact ⟨rfl, rfl⟩

/-- Whatever is done with a machine that traces, its trace is faithful: there is an entry for each
cycle, about the instruction that the program has at the entry's program counter. The first entry
starts where the program does, each other one where the one before it ended, and the last one ends
in the present state. A run that has a result shows this trace in it. A machine that does not trace
has none, nor have the results of its runs. -/
theorem faithful_of_history {room : Nat} {console : Console} {size : Int}
    {limit : Option Int} {tracing : Bool} {m : Machine}
    (h : create room console size limit tracing = .ok m) (history : List Operation) :
    (tracing = true → (m.after history).Faithful) ∧
    (tracing = false → (m.after history).trace = #[]) ∧
    ∀ bound budget result, ((m.after history).run bound budget).1 = some (.ok result) →
      result.trace = ((m.after history).run bound budget).2.trace ∧
      (tracing = true → (result.trace.size : Int) = result.cycles) ∧
      (tracing = false → result.trace = #[]) := by
  have ht : (m.after history).Traces size tracing := (traces_create h).after history
  refine ⟨?_, ht.silent, ?_⟩
  · intro hon
    subst hon
    exact ht.faithful
  · intro bound budget result hr
    have hn := ht.run bound budget
    obtain ⟨htrace, hcycles⟩ := result_of_run ht.consistent hr
    refine ⟨htrace, ?_, ?_⟩
    · intro hon
      subst hon
      rw [htrace, hcycles]
      exact hn.faithful.size_eq
    · intro hoff
      rw [htrace]
      exact hn.silent hoff

/-- A run that a line of input crashes, taken up by steps from the instruction that read it. -/
theorem faithful_of_history_crash :
    let history : List Operation :=
      [.loadLines ["MOV R1, #5", "IN R2", "CMP R1, R2", "BNE again", "again:", "OUT R2"] "input",
        .feed ["1\u001c", "7"], .run none 10, .step, .step, .writeMemory 9 1, .step, .step]
    let m : Machine :=
      { memory := Memory.zeroed 4 (by decide) (by decide), console := {}, tracing := true }
    create 4 {} 4 none true = .ok m ∧ (m.after history).Faithful ∧
      (m.after history).cycles = 5 := by
  intro history m
  have hm : create 4 {} 4 none true = .ok m := rfl
  exact ⟨hm, (faithful_of_history hm history).1 rfl, by decide +kernel⟩

end Machine

end RegisterMachine
