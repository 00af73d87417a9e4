import RegisterMachine.Machine.Report
import RegisterMachine.Proofs.Machine.Consistency

/-!
# Histories of a machine

The operations that a machine is used by, one after the other, from the moment it is created. None
of them can make it inconsistent, and that includes those that fail.
-/

namespace RegisterMachine.Machine

/-- What can be asked of a machine. A file is looked for each time that it is loaded, and a run
without a limit may be left after some number of steps. -/
inductive Operation where
  | loadText (text file : String)
  | loadLines (lines : List String) (file : String)
  | loadFile (read : FileReader) (path : String)
  | unload
  | step
  | run (limit : Option Int) (budget : Nat)
  | writeMemory (address v : Int)
  | feed (lines : List String)
  | display
  | printTrace
  /-- Any of the accessors, which have no effect. -/
  | inspect

def apply (m : Machine) : Operation → Machine
  | .loadText text file => (m.loadText text file).2
  | .loadLines lines file => (m.loadLines lines file).2
  | .loadFile read path => (m.loadFile read path).2
  | .unload => m.unload
  | .step => m.step.2
  | .run limit budget => (m.run limit budget).2
  | .writeMemory address v =>
      match m.writeMemory address v with
      | .ok next => next
      | .error _ => m
  | .feed lines => m.feed lines
  | .display => m.display
  | .printTrace => m.printTrace
  | .inspect => m

def after (m : Machine) (history : List Operation) : Machine :=
  history.foldl apply m

theorem writeMemory_eq_ok {m next : Machine} {address v : Int}
    (h : m.writeMemory address v = .ok next) :
    ∃ memory, m.memory.write address v = .ok memory ∧ next = { m with memory } := by
  unfold writeMemory at h
  cases hw : m.memory.write address v with
  | error reason =>
      rw [hw] at h
      cases h
  | ok memory =>
      rw [hw] at h
      cases h
      exact ⟨memory, rfl, rfl⟩

section
variable {room : Nat} {console : Console} {size : Int} {limit : Option Int} {tracing : Bool}

/-- A machine comes with nothing in it but zeros. -/
theorem create_eq_ok {m : Machine} (h : create room console size limit tracing = .ok m) :
    ∃ (count : Nat) (nonempty : 0 < count) (indexed : count ≤ Index.greatest), size = count ∧
      m = { memory := .zeroed count nonempty indexed, console, limit, tracing } := by
  unfold create at h
  cases hm : Memory.ofSize room size with
  | error reason =>
      rw [hm] at h
      cases h
  | ok memory =>
      rw [hm] at h
      cases h
      obtain ⟨count, nonempty, indexed, hs, -, rfl⟩ := Memory.ofSize_eq_ok hm
      exact ⟨count, nonempty, indexed, hs, rfl⟩

/-- Every positive size that indices can number is to be had where there is room for it. -/
theorem exists_create (nonempty : 0 < size) (indexed : size ≤ Index.greatest) (hr : size ≤ room) :
    ∃ m, create room console size limit tracing = .ok m := by
  rw [create, Memory.ofSize_of_fits nonempty indexed hr]
  exact ⟨_, rfl⟩

theorem consistent_create {m : Machine} (h : create room console size limit tracing = .ok m) :
    m.Consistent size := by
  obtain ⟨count, nonempty, indexed, rfl, rfl⟩ := create_eq_ok h
  have hs : (Memory.zeroed count nonempty indexed).size = count := Array.size_replicate
  exact consistent_of_not_loaded (congrArg Nat.cast hs)
    (Memory.holdsWords_zeroed count nonempty indexed) rfl rfl rfl

end

/-! ## Every operation -/

namespace Consistent

variable {m : Machine} {size : Int} (h : m.Consistent size)
include h

theorem unload : m.unload.Consistent size :=
  consistent_of_not_loaded h.size_eq h.memory rfl rfl rfl

theorem loadParsed {parsed : Except SourceError Program}
    (hw : ∀ program, parsed = .ok program → program.WellFormed) (file : String) :
    (m.loadParsed parsed file).2.Consistent size := by
  cases parsed with
  | error e => exact h.unload
  | ok program =>
      exact consistent_of_loaded h.size_eq h.memory rfl rfl (hw program rfl)
        (Cpu.Fits.initial program.length)

theorem loadLines (lines : List String) (file : String) :
    (m.loadLines lines file).2.Consistent size :=
  h.loadParsed (fun _ hp => Program.wellFormed_of_ofLines hp) file

theorem loadText (text file : String) : (m.loadText text file).2.Consistent size :=
  h.loadParsed (fun _ hp => Program.wellFormed_of_ofText hp) file

theorem loadFile (read : FileReader) (path : String) :
    (m.loadFile read path).2.Consistent size := by
  unfold Machine.loadFile
  split
  next => exact h.unload
  next lines _ => exact h.loadLines lines path

theorem writeMemory {next : Machine} {address v : Int}
    (hn : m.writeMemory address v = .ok next) : next.Consistent size := by
  unfold Machine.writeMemory at hn
  cases hw : m.memory.write address v with
  | error reason =>
      rw [hw] at hn
      cases hn
  | ok memory =>
      rw [hw] at hn
      cases hn
      have hs : memory.size = m.memory.size := by
        simp only [Memory.size, Memory.cells_write hw, Array.size_setIfInBounds]
      exact { h with
        size_eq := (congrArg Nat.cast hs).trans h.size_eq
        memory := h.memory.write hw }

/-- What is in the console does not matter. -/
theorem withConsole (console : Console) :
    ({ m with console } : Machine).Consistent size :=
  { h with }

theorem apply (operation : Operation) : (m.apply operation).Consistent size := by
  cases operation with
  | loadText text file => exact h.loadText text file
  | loadLines lines file => exact h.loadLines lines file
  | loadFile read path => exact h.loadFile read path
  | unload => exact h.unload
  | step => exact h.step.1
  | run limit budget => exact (h.run limit budget).1
  | writeMemory address v =>
      simp only [Machine.apply]
      split
      next next hn => exact h.writeMemory hn
      next => exact h
  | feed lines => exact h.withConsole _
  | display => exact h.withConsole _
  | printTrace => exact h.withConsole _
  | inspect => exact h

theorem after (history : List Operation) : (m.after history).Consistent size := by
  induction history generalizing m with
  | nil => exact h
  | cons operation rest ih => exact ih (h.apply operation)

end Consistent

/-- Whatever is done with a machine, it stays consistent, with memory of the size it was created
with. -/
theorem consistent_of_history {room : Nat} {console : Console} {size : Int} {limit : Option Int}
    {tracing : Bool} {m : Machine} (h : create room console size limit tracing = .ok m)
    (history : List Operation) : (m.after history).Consistent size :=
  (consistent_create h).after history

/-- A loop that runs into its limit and goes on by a step. The write after it is out of bounds. -/
theorem consistent_of_history_loop :
    let history : List Operation :=
      [.loadLines ["again:", "ADD R1, R1, #1", "STR R1, 3", "B again"] "loop", .run (some 4) 0,
        .step, .writeMemory 4 1, .feed ["1"], .inspect]
    ∃ m, create 4 {} 4 none true = .ok m ∧ (m.after history).Consistent 4 ∧
      (m.after history).cycles = 5 := by
  intro history
  have h : create 4 {} 4 none true = .ok _ := rfl
  refine ⟨_, h, consistent_of_history h history, ?_⟩
  decide +kernel

end RegisterMachine.Machine
