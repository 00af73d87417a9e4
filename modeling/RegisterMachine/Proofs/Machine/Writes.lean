import RegisterMachine.Proofs.Instruction.World
import RegisterMachine.Proofs.Machine.Completed

/-!
# Memory as a record of writes

All that happens to the memory of a machine in its life is in two kinds of events: an instruction
completes, or a cell is written from outside. After any history a cell holds what the latest event
that wrote it put there, and zero if there was none. Programs come and go without a trace in memory,
and so do instructions that fail.
-/

namespace RegisterMachine

/-! ## Writes of an instruction -/

namespace TraceEntry

def isStore (entry : TraceEntry) : Bool :=
  entry.decoded.mnemonic == Mnemonic.store.name

def isLoad (entry : TraceEntry) : Bool :=
  entry.decoded.mnemonic == Mnemonic.load.name

/-- The address that an entry has written to and the value that it has put there, if it is a
store. -/
def write? (entry : TraceEntry) : Option (Int × Int) :=
  match entry.isStore, entry.decoded.arguments with
  | true, [source, place] => do
      let address ← (addressValue place entry.before).toOption
      return (address, ← (registerValue source entry.before).toOption)
  | _, _ => none

theorem write?_of_stores {entry : TraceEntry} (h : entry.isStore = true) {address v : Int}
    (hs : entry.before.Stores entry.decoded.arguments address v) :
    entry.write? = some (address, v) := by
  obtain ⟨source, place, ha, hv, hp⟩ := hs
  simp only [write?, h, ha, hv, hp]
  rfl

theorem write?_of_not_store {entry : TraceEntry} (h : entry.isStore = false) :
    entry.write? = none := by
  simp only [write?, h]

end TraceEntry

namespace Machine

/-! ## Events -/

inductive Event where
  | completed (entry : TraceEntry)
  /-- A cell is written from outside. -/
  | written (address v : Int)

namespace Event

/-- The address that an event writes to and the value that it puts there, if it is a write. -/
def write? : Event → Option (Int × Int)
  | .completed entry => entry.write?
  | .written address v => some (address, v)

def valueAt? (event : Event) (address : Int) : Option Int :=
  event.write?.bind fun write => if address = write.1 then some write.2 else none

end Event

/-- The value that the latest of the events that write to an address puts there. -/
def latestWrite? (events : List Event) (address : Int) : Option Int :=
  events.reverse.findSome? (·.valueAt? address)

/-- What a cell holds after events, if it has held zero before them. -/
def content (events : List Event) (address : Int) : Int :=
  (latestWrite? events address).elim 0 Word.wrap

section
variable (events : List Event) {event : Event}

theorem latestWrite?_append (event : Event) (address : Int) :
    latestWrite? (events ++ [event]) address =
      (event.valueAt? address).or (latestWrite? events address) := by
  simp [latestWrite?, List.findSome?_cons]
  cases event.valueAt? address <;> rfl

theorem content_of_write {address v : Int} (h : event.write? = some (address, v)) (other : Int) :
    content (events ++ [event]) other =
      if other = address then Word.wrap v else content events other := by
  simp only [content, latestWrite?_append, Event.valueAt?, h, Option.bind_some]
  split <;> rfl

theorem content_of_no_write (h : event.write? = none) (address : Int) :
    content (events ++ [event]) address = content events address := by
  simp only [content, latestWrite?_append, Event.valueAt?, h, Option.bind_none, Option.none_or]

theorem wrap_content (address : Int) :
    Word.wrap (content events address) = content events address := by
  unfold content
  cases latestWrite? events address with
  | none => rfl
  | some v => exact Word.wrap_wrap v

end

/-- What happens to memory in an operation. -/
def eventsOf (m : Machine) : Operation → List Event
  | .step =>
      match m.step.1 with
      | .ok (some entry) => [.completed entry]
      | _ => []
  | .run limit budget =>
      if m.isLoaded then (m.completedByRun limit budget).map .completed else []
  | .writeMemory address v =>
      match m.writeMemory address v with
      | .ok _ => [.written address v]
      | .error _ => []
  | _ => []

def eventsAfter (m : Machine) : List Operation → List Event
  | [] => []
  | operation :: rest => m.eventsOf operation ++ (m.apply operation).eventsAfter rest

/-! ## The invariant -/

/-- The cells that a completed instruction has gone to are in bounds, and if it has loaded one, then
what it got is what the events before it had left there. -/
structure Accesses (entry : TraceEntry) (size : Int) (front : List Event) : Prop where
  store : entry.isStore = true →
    ∃ address v, entry.before.Stores entry.decoded.arguments address v ∧
      entry.write? = some (address, v) ∧ 0 ≤ address ∧ address < size
  load : entry.isLoad = true →
    ∃ r address, entry.before.Loads entry.decoded.arguments r address ∧
      0 ≤ address ∧ address < size ∧ entry.after.read r = .ok (content front address)

/-- The memory of a machine has come about by events, and so have the values that were loaded from
it. -/
structure Remembers (m : Machine) (size : Int) (events : List Event) : Prop where
  consistent : m.Consistent size
  cells : ∀ address, 0 ≤ address → address < size →
    m.memory.read address = .ok (content events address)
  accesses : ∀ front entry back, events = front ++ .completed entry :: back →
    Accesses entry size front

namespace Remembers

variable {m : Machine} {size : Int} {events : List Event} (h : m.Remembers size events)
include h

theorem of_eq {next : Machine} (hc : next.Consistent size) (hm : next.memory = m.memory) :
    next.Remembers size events where
  consistent := hc
  cells := by
    rw [hm]
    exact h.cells
  accesses := h.accesses

/-- One more event. -/
theorem append {next : Machine} {event : Event} (hc : next.Consistent size)
    (hcells : ∀ address, 0 ≤ address → address < size →
      next.memory.read address = .ok (content (events ++ [event]) address))
    (ha : ∀ entry, event = .completed entry → Accesses entry size events) :
    next.Remembers size (events ++ [event]) where
  consistent := hc
  cells := hcells
  accesses := by
    intro front entry back he
    -- The instruction is the last event, or one of those before it.
    rcases List.eq_nil_or_concat back with rfl | ⟨others, last, rfl⟩
    · obtain ⟨rfl, hl⟩ := List.append_inj' he rfl
      exact ha entry (List.cons.inj hl).1
    · rw [List.concat_eq_append, ← List.cons_append, ← List.append_assoc] at he
      exact h.accesses front entry others (List.append_inj' he rfl).1

theorem read_of_write {next : Machine} {event : Event} {address v : Int}
    (he : event.write? = some (address, v)) (hw : m.memory.write address v = .ok next.memory)
    (other : Int) (h0 : 0 ≤ other) (hl : other < size) :
    next.memory.read other = .ok (content (events ++ [event]) other) := by
  rw [Memory.read_write hw, content_of_write events he]
  split
  · rfl
  · exact h.cells other h0 hl

theorem bounds {address : Int} (hb : m.memory.inBounds address = true) :
    0 ≤ address ∧ address < size := by
  rw [← h.consistent.size_eq]
  exact Memory.inBounds_iff.1 hb

/-! ## Steps -/

section
variable {entry : TraceEntry} {layout : Layout} {world : World}
  (hx : Registry.standard.execute layout entry.before entry.decoded m.toWorld =
    (.ok entry.after, world))
include hx

theorem accesses_of_execute : Accesses entry size events where
  store := by
    intro hs
    rcases Registry.memory_of_execute hx with ⟨-, address, v, ha, hw⟩ | ⟨hn, -⟩
    · exact ⟨address, v, ha, TraceEntry.write?_of_stores hs ha,
        h.bounds (Memory.inBounds_of_write hw)⟩
    · exact (hn (beq_iff_eq.1 hs)).elim
  load := by
    intro hl
    obtain ⟨r, address, v, ha, hv, hn⟩ := Registry.loaded_of_execute hx (beq_iff_eq.1 hl)
    obtain ⟨h0, hb⟩ := h.bounds (Memory.inBounds_of_read hv)
    have hc : v = content events address := Except.ok.inj (hv.symm.trans (h.cells address h0 hb))
    rw [hc, wrap_content] at hn
    exact ⟨r, address, ha, h0, hb, hn⟩

theorem cells_of_execute {next : Machine} (hm : next.memory = world.memory) (address : Int)
    (h0 : 0 ≤ address) (hl : address < size) :
    next.memory.read address = .ok (content (events ++ [.completed entry]) address) := by
  rcases Registry.memory_of_execute hx with ⟨hs, place, v, ha, hw⟩ | ⟨hn, hk⟩
  · have he : (Event.completed entry).write? = some (place, v) :=
      TraceEntry.write?_of_stores (beq_iff_eq.2 hs) ha
    rw [← hm] at hw
    exact h.read_of_write he hw address h0 hl
  · have he : (Event.completed entry).write? = none :=
      TraceEntry.write?_of_not_store (beq_eq_false_iff_ne.2 hn)
    rw [hm, hk, content_of_no_write events he]
    exact h.cells address h0 hl

end

theorem step_ok {entry : TraceEntry} {next : Machine} (hs : m.step = (.ok (some entry), next)) :
    next.Remembers size (events ++ [.completed entry]) := by
  obtain ⟨program, world, -, -, -, -, hr, hn⟩ := step_completes hs
  have hm : next.memory = world.memory := by rw [hn]
  refine h.append (h.consistent.of_step hs) (h.cells_of_execute hr hm) ?_
  intro other ho
  cases ho
  exact h.accesses_of_execute hr

theorem step_error {failure : Failure Report} {next : Machine}
    (hs : m.step = (.error failure, next)) : next.Remembers size events :=
  h.of_eq (h.consistent.of_step hs) (h.consistent.memory_of_failed_step hs)

theorem step : m.step.2.Remembers size (events ++ m.eventsOf .step) := by
  cases hs : m.step with
  | mk result next =>
      simp only [eventsOf, hs]
      cases result with
      | error failure => simpa using h.step_error hs
      | ok done =>
          cases done with
          | none =>
              obtain ⟨-, rfl⟩ := step_eq_none hs
              simpa using h
          | some entry => exact h.step_ok hs

/-! ## Runs -/

theorem run (limit : Option Int) (budget : Nat) :
    (m.run limit budget).2.Remembers size (events ++ m.eventsOf (.run limit budget)) := by
  cases hp : m.program with
  | none => simpa [eventsOf, isLoaded, hp, run_of_not_loaded hp] using h
  | some program =>
      obtain ⟨cpu, hc, -, -⟩ := h.consistent.loaded hp
      have hr : m.restart.Remembers size (events ++ [].map .completed) := by
        rw [List.map_nil, List.append_nil]
        exact h.of_eq h.consistent.restart rfl
      have hn :=
        run_invariant (P := fun s entries => s.Remembers size (events ++ entries.map .completed))
          (fun s entries entry next hs hstep => by simpa using hs.step_ok hstep)
          (fun s entries failure next hs hstep => hs.step_error hstep) hp hc hr limit budget
      simpa [eventsOf, isLoaded, hp] using hn

end Remembers

/-! ## Histories -/

def Operation.keepsMemory : Operation → Bool
  | .step | .run .. | .writeMemory .. => false
  | .loadText .. | .loadLines .. | .loadFile .. | .unload | .feed _ | .display | .printTrace |
    .inspect => true

theorem memory_loadParsed (m : Machine) (parsed : Except SourceError Program) (file : String) :
    (m.loadParsed parsed file).2.memory = m.memory := by
  cases parsed <;> rfl

section
variable {operation : Operation} (h : operation.keepsMemory = true) (m : Machine)
include h

theorem memory_of_keepsMemory : (m.apply operation).memory = m.memory := by
  cases operation with
  | loadText text file => exact memory_loadParsed m (Program.ofText text) file
  | loadLines lines file => exact memory_loadParsed m (Program.ofLines lines) file
  | loadFile read path =>
      simp only [apply, loadFile]
      split
      next => rfl
      next lines _ => exact memory_loadParsed m (Program.ofLines lines) path
  | unload => rfl
  | feed lines => rfl
  | display => rfl
  | printTrace => rfl
  | inspect => rfl
  | step => cases h
  | run limit budget => cases h
  | writeMemory address v => cases h

theorem eventsOf_of_keepsMemory : m.eventsOf operation = [] := by
  cases operation with
  | step => cases h
  | run limit budget => cases h
  | writeMemory address v => cases h
  | _ => rfl

end

namespace Remembers

variable {m : Machine} {size : Int} {events : List Event} (h : m.Remembers size events)
include h

theorem writeMemory (address v : Int) :
    (m.apply (.writeMemory address v)).Remembers size
      (events ++ m.eventsOf (.writeMemory address v)) := by
  have hc := h.consistent.apply (.writeMemory address v)
  simp only [Machine.apply, eventsOf] at hc ⊢
  cases hn : m.writeMemory address v with
  | error reason => simpa [hn] using h
  | ok next =>
      simp only [hn] at hc ⊢
      obtain ⟨memory, hw, rfl⟩ := writeMemory_eq_ok hn
      refine h.append hc (h.read_of_write rfl hw) ?_
      intro entry he
      cases he

theorem apply (operation : Operation) :
    (m.apply operation).Remembers size (events ++ m.eventsOf operation) := by
  cases hk : operation.keepsMemory with
  | true =>
      rw [eventsOf_of_keepsMemory hk, List.append_nil]
      exact h.of_eq (h.consistent.apply operation) (memory_of_keepsMemory hk m)
  | false =>
      cases operation with
      | step => exact h.step
      | run limit budget => exact h.run limit budget
      | writeMemory address v => exact h.writeMemory address v
      | _ => cases hk

theorem after (history : List Operation) :
    (m.after history).Remembers size (events ++ m.eventsAfter history) := by
  induction history generalizing m events with
  | nil => simpa [eventsAfter, Machine.after] using h
  | cons operation rest ih =>
      have hn := ih (h.apply operation)
      rw [List.append_assoc] at hn
      exact hn

end Remembers

theorem remembers_create {room : Nat} {console : Console} {size : Int}
    {limit : Option Int} {tracing : Bool} {m : Machine}
    (h : create room console size limit tracing = .ok m) : m.Remembers size [] where
  consistent := consistent_create h
  cells := by
    intro address h0 hl
    obtain ⟨count, nonempty, indexed, rfl, rfl⟩ := create_eq_ok h
    exact Memory.read_zeroed nonempty indexed h0 hl
  accesses := by simp

/-- The memory of a run that has ended is that behind its last completed instruction. -/
theorem memory_run {m : Machine} {size : Int} (h : m.Consistent size) (limit : Option Int)
    (budget : Nat) :
    ∃ last, m.restart.nth? (m.completedByRun limit budget).length = some last ∧
      (m.run limit budget).2.memory = last.memory := by
  cases hp : m.program with
  | none =>
      have hf : m.restart.isFinished = true := isFinished_of_not_loaded hp
      rw [completedByRun, completed_of_isFinished hf, run_of_not_loaded hp]
      exact ⟨m.restart, rfl, rfl⟩
  | some program =>
      obtain ⟨cpu, hc, -, -⟩ := h.loaded hp
      obtain ⟨last, ending, hn, hl, he, -⟩ :=
        run_ends (P := fun s _ => s.Consistent size)
          (fun s entries entry next hs hstep => hs.of_step hstep) hp hc h.restart limit budget
      refine ⟨last, hn, ?_⟩
      rcases he.eq_or_failed with hk | ⟨failure, hf⟩
      · rw [hk]
      · exact hl.memory_of_failed_step hf

/-- Memory is what was written to it last. Each cell holds the word of the latest successful write
to it, from outside or by a store that completed, and zero if there was none; a load that completes
puts exactly that into its register. Loading and unloading a program change no cell, whether they
fail or not, nor does an instruction that fails, the start of a run, or its end. -/
theorem memory_of_history {room : Nat} {console : Console} {size : Int}
    {limit : Option Int} {tracing : Bool} {m : Machine}
    (h : create room console size limit tracing = .ok m) (history : List Operation) :
    (∀ address, 0 ≤ address → address < size →
      (m.after history).readMemory address =
        .ok (content (m.eventsAfter history) address)) ∧
    (∀ front entry back, m.eventsAfter history = front ++ .completed entry :: back →
      Accesses entry size front) ∧
    (∀ operation : Operation, operation.keepsMemory = true →
      ((m.after history).apply operation).memory = (m.after history).memory) ∧
    (∀ failure next, (m.after history).step = (.error failure, next) →
      next.memory = (m.after history).memory) ∧
    (m.after history).restart.memory = (m.after history).memory ∧
    ∀ bound budget, ∃ last,
      (m.after history).restart.nth? ((m.after history).completedByRun bound budget).length =
        some last ∧
      ((m.after history).run bound budget).2.memory = last.memory := by
  have hr : (m.after history).Remembers size (m.eventsAfter history) :=
    (remembers_create h).after history
  refine ⟨hr.cells, hr.accesses, ?_, ?_, rfl, ?_⟩
  · intro operation hk
    exact memory_of_keepsMemory hk _
  · intro failure next hs
    exact hr.consistent.memory_of_failed_step hs
  · intro bound budget
    exact memory_run hr.consistent bound budget

/-- A cell is written from outside, loaded and stored to through a register, and survives the
failure of the next store, a load that fails and a write out of bounds. -/
theorem memory_of_history_indirect :
    let history : List Operation :=
      [.writeMemory 3 4294967303,
        .loadLines ["MOV R1, #3", "LDR R2, R1", "ADD R2, R2, #1", "STR R2, R1", "STR R1, 4"] "cell",
        .run none 10, .loadLines ["STR"] "input", .loadLines ["again:", "again:"] "input",
        .writeMemory 4 1]
    let m : Machine := { memory := Memory.zeroed 4 (by decide) (by decide), console := {} }
    create 4 {} 4 none false = .ok m ∧ (m.eventsAfter history).length = 5 ∧
      (m.after history).readMemory 3 = .ok 8 ∧ (m.after history).readMemory 2 = .ok 0 := by
  intro history m
  have hm : create 4 {} 4 none false = .ok m := rfl
  obtain ⟨hcells, -⟩ := memory_of_history hm history
  have h3 : content (m.eventsAfter history) 3 = 8 := by decide +kernel
  have h2 : content (m.eventsAfter history) 2 = 0 := by decide +kernel
  have hread3 := hcells 3 (by decide) (by decide)
  have hread2 := hcells 2 (by decide) (by decide)
  rw [h3] at hread3
  rw [h2] at hread2
  exact ⟨hm, by decide +kernel, hread3, hread2⟩

end Machine

end RegisterMachine
