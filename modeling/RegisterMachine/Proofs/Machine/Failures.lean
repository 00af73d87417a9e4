import RegisterMachine.Proofs.Machine.History
import RegisterMachine.Proofs.Machine.Limits

/-!
# Failures of loaded programs

A program that was read from a source cannot bring out the faults that stand for a defect of the
machine: each mnemonic that a source can hold has a handler, and each state that a handler leads to
passes the check behind it.
-/

namespace RegisterMachine.Machine

theorem exists_handler {instruction : Instruction} (h : instruction.Dispatchable) :
    ∃ m : Mnemonic, Registry.standard.find? (Decoded.ofText instruction.text).mnemonic =
      some (Registry.builtIn m) := by
  obtain ⟨m, hm⟩ := h
  refine ⟨m, ?_⟩
  rw [hm]
  exact Registry.find?_standard m

section
variable {m : Machine} {size : Int} (h : m.Consistent size) {program : Program}
  (hp : m.program = some program)
include h hp

theorem Consistent.ofStep {failure : Failure Report} (hf : m.step.1 = .error failure) :
    failure.OfStep := by
  have hn : m.program ≠ none := by rw [hp]; exact nofun
  exact (h.step.2 hn).of_error hf

theorem Consistent.runOutcome {limit : Option Int} {budget : Nat}
    {outcome : Except Crash RunResult} (ho : (m.run limit budget).1 = some outcome) :
    RunOutcome (limit.or m.limit) outcome := by
  have hn : m.program ≠ none := by rw [hp]; exact nofun
  exact (h.run limit budget).2 hn outcome ho

/-- The check behind an instruction accepts what the registry makes of it. -/
theorem Consistent.isValid_of_execute {cpu : Cpu} (hc : m.cpu = some cpu)
    {instruction : Instruction} (hi : program.fetch? cpu.pc = some instruction) {next : Cpu}
    {world : World}
    (he : Registry.standard.execute program.layout cpu (Decoded.ofText instruction.text) m.toWorld =
      (.ok next, world)) : next.isValid (some program.length) = true := by
  obtain ⟨mnemonic, ha⟩ := h.exists_at hp hc hi
  have hx := h.executed ha
  rw [he] at hx
  have hn : next.Fits program.length := hx.yields
  exact hn.isValid

end

/-- Whatever was done with a machine, if a program is loaded, then its steps and runs fail for the
reasons that instructions have, or that a run has, and for no other: what makes a source line an
instruction is what the registry is asked for, the registry has a handler for it, and the state
behind that handler is valid. -/
theorem failures_of_history {room : Nat} {console : Console} {size : Int}
    {limit : Option Int} {tracing : Bool} {m : Machine}
    (h : create room console size limit tracing = .ok m) (history : List Operation)
    {program : Program} (hp : (m.after history).program = some program) :
    (∀ failure, (m.after history).step.1 = .error failure → failure.OfStep) ∧
    (∀ limit budget outcome, ((m.after history).run limit budget).1 = some outcome →
      RunOutcome (limit.or (m.after history).limit) outcome) ∧
    (∀ line text, SourceLine.ofText line = .instruction text →
      (Decoded.ofText text).mnemonic = String.ofList (Text.firstWord (Text.trim line.toList))) ∧
    (∀ instruction ∈ program.instructions.toList, ∃ mnemonic,
      Registry.standard.find? (Decoded.ofText instruction.text).mnemonic =
        some (Registry.builtIn mnemonic)) ∧
    (∀ cpu instruction next world, (m.after history).cpu = some cpu →
      program.fetch? cpu.pc = some instruction →
      Registry.standard.execute program.layout cpu (Decoded.ofText instruction.text)
          (m.after history).toWorld = (.ok next, world) →
        next.isValid (some program.length) = true) := by
  have hs : (m.after history).Consistent size := (consistent_create h).after history
  refine ⟨?_, ?_, ?_, ?_, ?_⟩
  · intro failure hf
    exact hs.ofStep hp hf
  · intro limit budget outcome ho
    exact hs.runOutcome hp ho
  · intro line text ht
    exact SourceLine.mnemonic_of_instruction ht
  · intro instruction hi
    exact exists_handler ((hs.wellFormed program hp).dispatchable instruction hi)
  · intro cpu instruction next world hc hi he
    exact hs.isValid_of_execute hp hc hi he

/-- A program that is resumed where it failed, at a load from behind the last cell. Under a limit
that cannot be written its run has no result. -/
theorem failures_of_history_load :
    let m : Machine := { memory := Memory.zeroed 4 (by decide) (by decide), console := {} }
    let history : List Operation :=
      [.loadLines ["MOV R0, #4", "LDR R1, R0"] "load", .run none 9, .writeMemory 0 7]
    create 4 {} 4 none false = .ok m ∧
      (∃ failure, (m.after history).step.1 = .error failure ∧ failure.OfStep) ∧
      ((m.after history).run (some (-(Text.unwritable : Int))) 0).1 =
        some (.error .unwritable) := by
  intro m history
  have hl : (m.after history).program.isSome = true := by decide +kernel
  have hs : (m.after history).step.1.isOk = false := by decide +kernel
  have hcpu : (m.after history).cpu.isSome = true := by decide +kernel
  have hn : (m.after history).restart.isFinished = false := by decide +kernel
  obtain ⟨program, hp⟩ := Option.isSome_iff_exists.1 hl
  obtain ⟨cpu, hc⟩ := Option.isSome_iff_exists.1 hcpu
  have hrun : ((m.after history).run (some (-(Text.unwritable : Int))) 0).1 =
      some (.error .unwritable) := by
    rw [run_of_unwritable hp hc hn (by omega) Text.isWritable_neg_unwritable]
  refine ⟨rfl, ?_, hrun⟩
  cases hf : (m.after history).step.1 with
  | ok entry =>
      rw [hf] at hs
      cases hs
  | error failure =>
      have hm : create 4 {} 4 none false = .ok m := rfl
      exact ⟨failure, rfl, (failures_of_history hm history hp).1 failure hf⟩

end RegisterMachine.Machine
