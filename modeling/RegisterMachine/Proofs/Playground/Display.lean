import RegisterMachine.Playground
import RegisterMachine.Proofs.Machine.Conversation
import RegisterMachine.Proofs.Machine.Writes
import RegisterMachine.Proofs.Program.Placement

/-!
# Displays

The four texts of a display are put together from different parts of a machine and of the result of
its run, and still tell one story. It is the list of instructions that the run completed: the
summary has their number, the trace shows them with the register that each has changed, the output
has the lines of those that wrote one, and the changes and the writes add up to the registers and
the memory of the state.
-/

namespace RegisterMachine.Playground

/-! ## Displays of a run -/

def loaded (inputs : String) (program : Program) : Machine :=
  (machine inputs).withProgram program editorFile

/-- The texts that show a machine and the result of its run. -/
def displayOf (m : Machine) (result : RunResult) : Display :=
  { output := Text.joinLines m.console.outputs
    summary := summaryText m result
    trace := traceText result.trace.toList
    state := stateText m }

theorem restart_loaded (inputs : String) (program : Program) :
    (loaded inputs program).restart = loaded inputs program := rfl

/-- Whatever a machine has done before, a load leaves nothing of it but the world. -/
theorem loadText_eq_loaded {text : String} {program : Program}
    (hp : Program.ofText text = .ok program) {inputs : String} {used : Machine}
    (hw : used.toWorld = (machine inputs).toWorld) (ht : used.tracing = true)
    (hl : used.limit = none) :
    used.loadText text editorFile = (.ok (), loaded inputs program) := by
  have hload := Machine.load_of_toProgram
    (show (SourceForm.asText text).toProgram = .ok program from hp) used editorFile
  obtain ⟨world, program', cpu, file, trace, tracing, limit⟩ := used
  subst hw ht hl
  exact hload

theorem run_of_ofText {text : String} {program : Program} (hb : isBlankProgram text = false)
    (hp : Program.ofText text = .ok program) (inputs : String) (limit : Int) :
    run text inputs limit =
      ((loaded inputs program).runWithin limit).1.map
        (displayOf ((loaded inputs program).runWithin limit).2) := by
  have hl : (machine inputs).loadText text editorFile = (.ok (), loaded inputs program) :=
    loadText_eq_loaded hp rfl rfl rfl
  simp only [run, hb, Bool.false_eq_true, if_false, hl]
  rfl

theorem runFor_of_cycles {amount : Amount} {limit : Int} (h : amount.cycles = .ok limit)
    (text inputs : String) : runFor text inputs amount = run text inputs limit := by
  simp only [runFor, h]

/-- A display of a program that could be loaded is that of a run. -/
theorem runFor_eq_ok {text inputs : String} {amount : Amount} {program : Program}
    {display : Display} (hb : isBlankProgram text = false) (hp : Program.ofText text = .ok program)
    (h : runFor text inputs amount = .ok display) :
    ∃ limit ran result, amount.cycles = .ok limit ∧
      (loaded inputs program).runWithin limit = (.ok result, ran) ∧
      display = displayOf ran result := by
  cases hl : amount.cycles with
  | error reason => simp [runFor, hl, hb] at h
  | ok limit =>
      rw [runFor_of_cycles hl, run_of_ofText hb hp] at h
      cases hr : (loaded inputs program).runWithin limit with
      | mk outcome ran =>
          rw [hr] at h
          cases outcome with
          | error reason => cases h
          | ok result =>
              cases h
              exact ⟨limit, ran, result, rfl, hr, rfl⟩

/-! ## Changes -/

structure Change where
  register : Register
  old : Int
  new : Int
  deriving DecidableEq, Repr

namespace Change

def text (change : Change) : String :=
  s!"R{change.register.val}: {change.old} -> {change.new}"

def apply (registers : List Int) (change : Change) : List Int :=
  registers.set change.register.val change.new

end Change

/-- The registers after changes, if they have all been zero before. -/
def replay (changes : List Change) : List Int :=
  changes.foldl Change.apply (List.replicate registerCount 0)

theorem replay_append (front back : List Change) :
    replay (front ++ back) = back.foldl Change.apply (replay front) :=
  List.foldl_append

theorem length_replay (changes : List Change) : (replay changes).length = registerCount := by
  induction changes using List.reverseRecOn with
  | nil => rfl
  | append_singleton front change ih =>
      rw [replay_append, List.foldl_cons, List.foldl_nil, Change.apply, List.length_set, ih]

/-- The first register that an entry leaves with another value. -/
def change? (entry : TraceEntry) : Option Change :=
  ((List.finRange registerCount).find? fun r =>
      entry.before.value r ≠ entry.after.value r).map fun r =>
    { register := r, old := entry.before.value r, new := entry.after.value r }

/-- The differences between a list and itself with one element set. -/
theorem filterMap_zip_set (registers : List Int) (i : Nat) (v : Int) (k : Nat) :
    (((registers.zipIdx k).map fun (v, index) => (registerName index, v)).zip
        (registers.set i v)).filterMap
      (fun ((name, old), new) => if old = new then none else some (name, old, new)) =
      match registers[i]? with
      | none => []
      | some old => if old = v then [] else [(registerName (k + i), old, v)] := by
  induction registers generalizing i k with
  | nil => rfl
  | cons w rest ih =>
      cases i with
      | zero =>
          -- Behind the element that is set, there is nothing to set.
          have hrest := ih rest.length (k + 1)
          rw [List.set_eq_of_length_le (Nat.le_refl _),
            List.getElem?_eq_none (Nat.le_refl _)] at hrest
          by_cases hw : w = v <;>
            simp [List.zipIdx_cons, hw, hrest]
      | succ i =>
          have hrest := ih i (k + 1)
          simp only [List.zipIdx_cons, List.map_cons, List.set_cons_succ, List.zip_cons_cons,
            List.filterMap_cons, if_true, hrest, List.getElem?_cons_succ]
          rw [show k + 1 + i = k + (i + 1) by omega]

section
variable {entry : TraceEntry} {r : Register} {v : Int}
  (hl : entry.before.registers.length = registerCount)
  (h : entry.after.registers = entry.before.registers.set r.val v)
include hl h

theorem changes_of_set :
    entry.changes =
      if entry.before.value r = v then []
      else [(registerName r.val, entry.before.value r, v)] := by
  have hr : r.val < entry.before.registers.length := by
    rw [hl]
    exact r.isLt
  have hv : entry.before.registers[r.val]? = some (entry.before.value r) := by
    simp [Cpu.value, hr]
  have hz := filterMap_zip_set entry.before.registers r.val v 0
  rw [hv, Nat.zero_add] at hz
  rw [TraceEntry.changes, h]
  exact hz

theorem value_of_set (q : Register) :
    entry.after.value q = if q = r then v else entry.before.value q := by
  have hr : r.val < entry.before.registers.length := by
    rw [hl]
    exact r.isLt
  by_cases hq : q = r
  · subst hq
    simp [Cpu.value, h, hr]
  · have hne : r.val ≠ q.val := fun e => hq (Fin.ext e.symm)
    simp [Cpu.value, h, hq, List.getD_eq_getElem?_getD, hne]

theorem change?_of_set :
    change? entry =
      if entry.before.value r = v then none
      else some { register := r, old := entry.before.value r, new := v } := by
  have hvalue := value_of_set hl h
  by_cases hv : entry.before.value r = v
  · rw [if_pos hv, change?, Option.map_eq_none_iff, List.find?_eq_none]
    intro q _
    rw [hvalue q]
    by_cases hq : q = r <;> simp [hq, hv]
  · rw [if_neg hv, change?]
    cases hf : (List.finRange registerCount).find?
        (fun q => entry.before.value q ≠ entry.after.value q) with
    | none =>
        have hn := List.find?_eq_none.1 hf r (List.mem_finRange r)
        rw [hvalue r, if_pos rfl] at hn
        exact (hn (by simpa using hv)).elim
    | some q =>
        have hd := List.find?_some hf
        rw [hvalue q] at hd
        by_cases hq : q = r
        · subst hq
          rw [Option.map_some, hvalue, if_pos rfl]
        · rw [if_neg hq] at hd
          simp at hd

/-- An entry that sets a register has left all of them as they were, or made one change. -/
theorem change_cases :
    (change? entry = none ∧ entry.changes = [] ∧
      entry.after.registers = entry.before.registers) ∨
    ∃ change, change? entry = some change ∧
      entry.changes = [(registerName change.register.val, change.old, change.new)] ∧
      entry.before.registers[change.register.val]? = some change.old ∧
      change.old ≠ change.new ∧ entry.after.registers = change.apply entry.before.registers := by
  have hr : r.val < entry.before.registers.length := by
    rw [hl]
    exact r.isLt
  have hold : entry.before.registers[r.val]? = some (entry.before.value r) := by
    simp [Cpu.value, hr]
  by_cases hv : entry.before.value r = v
  · refine .inl ⟨?_, ?_, ?_⟩
    · rw [change?_of_set hl h, if_pos hv]
    · rw [changes_of_set hl h, if_pos hv]
    · obtain ⟨hi, hget⟩ := List.getElem?_eq_some_iff.1 hold
      rw [h, ← hv, ← hget, List.set_getElem_self hi]
  · refine .inr ⟨{ register := r, old := entry.before.value r, new := v }, ?_, ?_, hold, hv, h⟩
    · rw [change?_of_set hl h, if_neg hv]
    · rw [changes_of_set hl h, if_neg hv]

end

/-- A completed instruction sets one register at most. -/
theorem registers_of_step {m next : Machine} {size : Int} (h : m.Consistent size)
    {entry : TraceEntry} (hs : m.step = (.ok (some entry), next)) :
    entry.before.registers.length = registerCount ∧
      ∃ (r : Register) (v : Int), entry.after.registers = entry.before.registers.set r.val v := by
  obtain ⟨program, world, hp, hc, -, -, hx, hn⟩ := Machine.step_completes hs
  have hbefore : entry.before.HoldsWords := (h.fits program entry.before hp hc).words
  have hafter : entry.after.HoldsWords :=
    ((h.of_step hs).fits program entry.after (by rw [hn, hp]) (by rw [hn])).words
  obtain ⟨r, hr⟩ := Registry.registers_of_execute hx
  refine ⟨hbefore.length_eq, r, entry.after.value r, ?_⟩
  refine List.ext_getElem (by rw [List.length_set, hbefore.length_eq, hafter.length_eq]) ?_
  intro i hi hi'
  let q : Register := ⟨i, by rw [← hafter.length_eq]; exact hi⟩
  have hq : entry.after.registers[i] = entry.after.value q := by simp [Cpu.value, q, hi]
  rw [hq, List.getElem_set]
  by_cases he : r.val = i
  · rw [if_pos he]
    exact congrArg entry.after.value (Fin.ext he.symm)
  · have hne : q ≠ r := fun e => he (congrArg Fin.val e).symm
    have hread := hr q hne
    rw [hafter.read_eq, hbefore.read_eq] at hread
    rw [if_neg he, Except.ok.inj hread]
    rw [List.length_set] at hi'
    simp [Cpu.value, q, hi']

/-! ## Entries -/

structure Entry where
  cycle : Nat
  pc : Int
  line : Int
  instruction : String
  change : Option Change
  deriving DecidableEq, Repr

namespace Entry

def lines (entry : Entry) : List String :=
  ["", s!"--- Cycle {entry.cycle} (PC={entry.pc}, line {entry.line}) ---",
    s!"Instruction: {entry.instruction}"] ++
    entry.change.toList.map fun change => s!"Changes:     {change.text}"

/-- An entry shows an instruction that was completed, and that it changed a register, if it did. -/
structure Describes (entry : Entry) (done : TraceEntry) : Prop where
  pc_eq : entry.pc = done.before.pc
  line_eq : entry.line = done.instruction.line
  instruction_eq : entry.instruction = done.instruction.text
  change_iff : entry.change.isSome = true ↔ done.after.registers ≠ done.before.registers

def replayAll (entries : List Entry) : List Int :=
  replay (entries.filterMap (·.change))

end Entry

/-- The entry that shows a completed instruction. -/
def entryOf (done : TraceEntry) : Entry :=
  { cycle := done.cycle.toNat
    pc := done.before.pc
    line := done.instruction.line
    instruction := done.instruction.text
    change := change? done }

/-- A completed instruction starts where those before it have led to, and makes one change of
registers at most. -/
structure Follows (front : List TraceEntry) (done : TraceEntry) : Prop where
  cycle_eq : done.cycle = front.length
  before_eq : done.before.registers = replay (front.filterMap change?)
  sets : ∃ (r : Register) (v : Int), done.after.registers = done.before.registers.set r.val v

namespace Follows

variable {front : List TraceEntry} {done : TraceEntry} (h : Follows front done)
include h

theorem length_eq : done.before.registers.length = registerCount := by
  rw [h.before_eq, length_replay]

theorem after_eq : done.after.registers = replay ((front ++ [done]).filterMap change?) := by
  obtain ⟨r, v, hset⟩ := h.sets
  rw [List.filterMap_append, replay_append, ← h.before_eq]
  rcases change_cases h.length_eq hset with ⟨hc, -, ha⟩ | ⟨change, hc, -, -, -, ha⟩
  · rw [List.filterMap_cons_none hc]
    exact ha
  · rw [List.filterMap_cons_some hc]
    exact ha

theorem entryLines_eq : entryLines done = (entryOf done).lines := by
  obtain ⟨r, v, hset⟩ := h.sets
  have hcycle : toString done.cycle = toString done.cycle.toNat := by
    rw [h.cycle_eq]
    rfl
  rcases change_cases h.length_eq hset with ⟨hc, hchanges, -⟩ | ⟨change, hc, hchanges, -⟩
  · simp only [entryLines, Entry.lines, entryOf, hc, hchanges, hcycle]
    rfl
  · simp only [entryLines, Entry.lines, entryOf, hc, hchanges, hcycle, TraceEntry.changesText]
    rfl

theorem describes : (entryOf done).Describes done := by
  obtain ⟨r, v, hset⟩ := h.sets
  refine ⟨rfl, rfl, rfl, ?_⟩
  rcases change_cases h.length_eq hset with ⟨hc, -, ha⟩ | ⟨change, hc, -, hold, hne, ha⟩
  · simp [entryOf, hc, ha]
  · refine iff_of_true (by simp [entryOf, hc]) ?_
    intro he
    have hi := (List.getElem?_eq_some_iff.1 hold).1
    have hnew := List.getElem?_set_self hi (a := change.new)
    rw [← Change.apply, ← ha, he, hold] at hnew
    exact hne (Option.some.inj hnew)

theorem old_of_change {change : Change} (hc : change? done = some change) :
    (replay (front.filterMap change?))[change.register.val]? = some change.old ∧
      change.old ≠ change.new := by
  obtain ⟨r, v, hset⟩ := h.sets
  rcases change_cases h.length_eq hset with ⟨hn, -⟩ | ⟨found, hf, -, hold, hne, -⟩
  · rw [hn] at hc
    cases hc
  · obtain rfl : found = change := Option.some.inj (hf.symm.trans hc)
    rw [← h.before_eq]
    exact ⟨hold, hne⟩

end Follows

/-! ## The run -/

/-- A machine that has completed instructions of a program has them in its trace, and its registers
and its cycles are what they have made of those of the start. -/
structure Retraced (m : Machine) (size : Int) (program : Program) (entries : List TraceEntry) :
    Prop where
  consistent : m.Consistent size
  program_eq : m.program = some program
  tracing : m.tracing = true
  trace_eq : m.trace.toList = entries
  cpu : ∃ cpu, m.cpu = some cpu ∧ cpu.cycles = entries.length ∧
    cpu.registers = replay (entries.filterMap change?)
  follows : ∀ (k : Nat) (done : TraceEntry), entries[k]? = some done → Follows (entries.take k) done

namespace Retraced

variable {m next : Machine} {size : Int} {program : Program} {entries : List TraceEntry}
  (h : Retraced m size program entries)
include h

theorem step_ok {done : TraceEntry} (hs : m.step = (.ok (some done), next)) :
    Retraced next size program (entries ++ [done]) := by
  obtain ⟨program', world, hp, hc, -, -, hx, hn⟩ := Machine.step_completes hs
  obtain ⟨cpu, hcpu, hcycles, hregisters⟩ := h.cpu
  obtain rfl : done.before = cpu := Option.some.inj (hc.symm.trans hcpu)
  have hdone : Follows entries done :=
    ⟨hcycles, hregisters, (registers_of_step h.consistent hs).2⟩
  refine
    { consistent := h.consistent.of_step hs
      program_eq := by rw [hn, h.program_eq]
      tracing := by rw [hn, h.tracing]
      trace_eq := by rw [hn, h.tracing, if_pos rfl, Array.toList_push, h.trace_eq]
      cpu := ⟨done.after, by rw [hn], ?_, hdone.after_eq⟩
      follows := ?_ }
  · rw [Registry.cycles_of_execute hx, hcycles, List.length_append, List.length_singleton]
    omega
  · intro k other hk
    -- It is the last instruction, behind all the others, or one of these.
    rcases Nat.lt_or_ge k entries.length with hlt | hge
    · rw [List.getElem?_append_left hlt] at hk
      rw [List.take_append_of_le_length (Nat.le_of_lt hlt)]
      exact h.follows k other hk
    · have hlt := (List.getElem?_eq_some_iff.1 hk).1
      rw [List.length_append, List.length_singleton] at hlt
      obtain rfl : k = entries.length := by omega
      rw [List.getElem?_concat_length] at hk
      cases hk
      rw [List.take_left]
      exact hdone

theorem step_error {failure : Failure Report} (hs : m.step = (.error failure, next)) :
    Retraced next size program entries := by
  have hc := h.consistent.of_step hs
  rw [Machine.step_eq_error hs] at hc ⊢
  exact ⟨hc, h.program_eq, h.tracing, h.trace_eq, h.cpu, h.follows⟩

end Retraced

/-! ## The cells -/

theorem mem_entries_iff {memory : Memory} {address : Nat} {v : Int} :
    (address, v) ∈ memory.entries ↔ memory.cells[address]? = some v := by
  have hz : (v, address) ∈ memory.cells.toList.zipIdx ↔ memory.cells[address]? = some v := by
    rw [List.mem_zipIdx_iff_getElem?, Array.getElem?_toList]
  rw [← hz]
  constructor
  · intro h
    obtain ⟨entry, he, hs⟩ := List.mem_map.1 h
    cases hs
    exact he
  · intro h
    exact List.mem_map_of_mem (f := Prod.swap) h

theorem pairwise_nonzero (memory : Memory) : memory.nonzero.Pairwise (fun a b => a.1 < b.1) := by
  have hs : (memory.cells.toList.zipIdx.map Prod.snd).Pairwise (· < ·) := by
    rw [List.zipIdx_map_snd]
    exact List.pairwise_lt_range'
  rw [Memory.nonzero_eq_filter, Memory.entries]
  exact List.Pairwise.filter _ (List.pairwise_map.2 (List.pairwise_map.1 hs))

/-- The cells of a state are those in which events have left something. -/
theorem mem_nonzero_iff {m : Machine} {size : Nat} {events : List Machine.Event}
    (h : m.Remembers size events) {address : Nat} {v : Int} :
    (address, v) ∈ m.memory.nonzero ↔
      v ≠ 0 ∧ address < size ∧ Machine.content events address = v := by
  have hcell : m.memory.cells[address]? = some v ↔
      address < size ∧ Machine.content events address = v := by
    by_cases hl : address < size
    · have hread := h.cells address (Int.natCast_nonneg _) (Int.ofNat_lt.2 hl)
      obtain ⟨w, hw, hr⟩ := Memory.read_of_inBounds (Memory.inBounds_of_read hread)
      obtain rfl : w = Machine.content events address := Except.ok.inj (hr.symm.trans hread)
      rw [Int.toNat_natCast] at hw
      rw [hw, Option.some.injEq, and_iff_right hl]
    · have hsize : m.memory.cells.size = size := Int.ofNat_inj.1 h.consistent.size_eq
      rw [Array.getElem?_eq_none (by omega)]
      exact iff_of_false nofun fun hs => hl hs.1
  rw [Memory.nonzero_eq_filter, List.mem_filter, mem_entries_iff, hcell]
  simp [and_comm]

/-! ## Rows of the state -/

def blanks (width : Nat) : String :=
  String.ofList (List.replicate width ' ')

/-- A register by its name, which ends in the third column, and its value, which ends in the
eleventh behind that. All values but zero are marked. -/
def registerRow (index : Nat) (v : Int) : String :=
  let name := s!"R{index}"
  let value := toString v
  let mark := if v = 0 then "" else " *"
  s!"  {blanks (3 - name.length)}{name}: {blanks (11 - value.length)}{value}{mark}"

def cellRow (address : Nat) (v : Int) : String :=
  let place := toString address
  let value := toString v
  s!"  [{blanks (3 - place.length)}{place}]: {blanks (11 - value.length)}{value}"

theorem registerLine_eq (index : Nat) (v : Int) :
    registerLine (registerName index) v = registerRow index v := by
  simp only [registerLine, registerRow, Text.alignRight, String.append_assoc, toString]
  rfl

theorem cellLine_eq (address : Nat) (v : Int) : cellLine address v = cellRow address v := by
  simp only [cellLine, cellRow, Text.alignRight, String.append_assoc, toString]
  rfl

/-! ## The texts -/

/-- What the texts of a display show, and how it hangs together: a number of cycles, the entries of
the trace, the registers and the cells of the state and the lines of output, all of them those of
the instructions that were completed. -/
structure Agrees (display : Display) (completed : List TraceEntry) (entries : List Entry)
    (registers : List Int) (cells : List (Nat × Int)) (written : List String) : Prop where
  summary : ∃ (status : String) (rest : List String), display.summary =
    "\n".intercalate (["EXECUTION SUMMARY", Text.rule '=' 40, s!"Status: {status}",
      s!"Cycles: {completed.length}"] ++ rest)
  trace : display.trace =
    "\n".intercalate (["EXECUTION TRACE", Text.rule '=' 60] ++ entries.flatMap Entry.lines ++
      if 100 < completed.length then
        ["", s!"... ({completed.length - 100} more entries)"]
      else [])
  entries_length : entries.length = min completed.length 100
  numbered : ∀ (k : Nat) (entry : Entry), entries[k]? = some entry → entry.cycle = k
  described : ∀ (k : Nat) (entry : Entry), entries[k]? = some entry →
    ∃ done, completed[k]? = some done ∧ entry.Describes done
  replayed : ∀ (k : Nat) (entry : Entry) (change : Change), entries[k]? = some entry →
    entry.change = some change →
      (Entry.replayAll (entries.take k))[change.register.val]? = some change.old ∧
        change.old ≠ change.new
  state : display.state =
    "\n".intercalate (["FINAL REGISTERS", Text.rule '=' 30] ++
      (registers.zipIdx.map fun (v, index) => registerRow index v) ++
      ["", "MEMORY (non-zero)", Text.rule '-' 30] ++
      cells.map fun (address, v) => cellRow address v)
  registers_length : registers.length = registerCount
  registers_eq : completed.length ≤ 100 → registers = Entry.replayAll entries
  cells_ascend : cells.Pairwise (fun a b => a.1 < b.1)
  cells_iff : ∀ (address : Nat) (v : Int), (address, v) ∈ cells ↔
    v ≠ 0 ∧ address < Memory.standardSize ∧
      Machine.content (completed.map .completed) address = v
  output : display.output = "\n".intercalate written
  written_eq : (completed.filter (·.isOutput)).map (·.line?) = written.map some

section
variable {m : Machine} {program : Program} {completed : List TraceEntry}
  (h : Retraced m Memory.standardSize program completed)
include h

theorem Retraced.summaryText_eq {result : RunResult} (hr : result.cycles = m.cycles) :
    ∃ (status : String) (rest : List String), summaryText m result =
      Text.joinLines (["EXECUTION SUMMARY", Text.rule '=' 40, s!"Status: {status}",
        s!"Cycles: {completed.length}"] ++ rest) := by
  obtain ⟨cpu, hc, hcycles, -⟩ := h.cpu
  have hn : toString result.cycles = toString completed.length := by
    rw [hr, Machine.cycles, hc, Option.elim_some, hcycles]
    rfl
  refine ⟨if result.ok then "Completed" else "Aborted",
    [s!"Instructions: {m.instructionTexts.length}", s!"Labels: {namedMapping m.labels}"] ++
      if result.ok then [] else ["", result.traceback], ?_⟩
  simp only [summaryText, hn]
  rfl

theorem Retraced.traceText_eq :
    traceText completed =
      Text.joinLines (["EXECUTION TRACE", Text.rule '=' 60] ++
        ((completed.take 100).map entryOf).flatMap Entry.lines ++
        if 100 < completed.length then
          ["", s!"... ({completed.length - 100} more entries)"]
        else []) := by
  have hlines : (completed.take shownEntries).flatMap entryLines =
      ((completed.take 100).map entryOf).flatMap Entry.lines := by
    rw [List.flatMap_map]
    refine List.flatMap_congr ?_
    intro done hd
    obtain ⟨k, hk⟩ := List.mem_iff_getElem?.1 (List.mem_of_mem_take hd)
    exact (h.follows k done hk).entryLines_eq
  rw [traceText, hlines]
  rfl

theorem Retraced.stateText_eq :
    ∃ registers : List Int, registers = replay (completed.filterMap change?) ∧
      stateText m =
        "\n".intercalate (["FINAL REGISTERS", Text.rule '=' 30] ++
          (registers.zipIdx.map fun (v, index) => registerRow index v) ++
          ["", "MEMORY (non-zero)", Text.rule '-' 30] ++
          m.memory.nonzero.map fun (address, v) => cellRow address v) := by
  obtain ⟨cpu, hc, -, hregisters⟩ := h.cpu
  refine ⟨cpu.registers, hregisters, ?_⟩
  simp only [stateText, Text.joinLines, hc, Option.elim_some, Cpu.named, List.map_map,
    Function.comp_def, registerLine_eq, cellLine_eq]

/-- The entries that are shown are those of the first instructions. -/
theorem Retraced.follows_of_shown {k : Nat} {entry : Entry}
    (hk : ((completed.take 100).map entryOf)[k]? = some entry) :
    ∃ done, completed[k]? = some done ∧ Follows (completed.take k) done ∧ entryOf done = entry ∧
      ((completed.take 100).map entryOf).take k = (completed.take k).map entryOf := by
  rw [List.getElem?_map, Option.map_eq_some_iff] at hk
  obtain ⟨done, hd, he⟩ := hk
  have hlt : k < min 100 completed.length := by
    have hlt := (List.getElem?_eq_some_iff.1 hd).1
    rwa [List.length_take] at hlt
  rw [List.getElem?_take_of_lt (by omega)] at hd
  refine ⟨done, hd, h.follows k done hd, he, ?_⟩
  rw [← List.map_take, List.take_take, show min k 100 = k by omega]

end

theorem replayAll_map_entryOf (completed : List TraceEntry) :
    Entry.replayAll (completed.map entryOf) = replay (completed.filterMap change?) := by
  rw [Entry.replayAll, List.filterMap_map]
  rfl

theorem Retraced.agrees {m : Machine} {program : Program} {completed : List TraceEntry}
    (h : Retraced m Memory.standardSize program completed)
    (hm : m.Remembers Memory.standardSize (completed.map .completed)) {written : List String}
    (ho : m.console.outputs = written)
    (hw : (completed.filter (·.isOutput)).map (·.line?) = written.map some)
    {result : RunResult} (ht : result.trace = m.trace) (hc : result.cycles = m.cycles) :
    ∃ registers, Agrees (displayOf m result) completed ((completed.take 100).map entryOf) registers
      m.memory.nonzero written := by
  obtain ⟨registers, hregisters, hstate⟩ := h.stateText_eq
  refine ⟨registers,
    { summary := ?_
      trace := ?_
      entries_length := ?_
      numbered := ?_
      described := ?_
      replayed := ?_
      state := ?_
      registers_length := ?_
      registers_eq := ?_
      cells_ascend := ?_
      cells_iff := ?_
      output := ?_
      written_eq := ?_ }⟩
  · simp only [displayOf]
    exact h.summaryText_eq hc
  · simp only [displayOf, ht, h.trace_eq]
    exact h.traceText_eq
  · rw [List.length_map, List.length_take, Nat.min_comm]
  · intro k entry hk
    obtain ⟨done, hd, hf, rfl, -⟩ := h.follows_of_shown hk
    have hlt := (List.getElem?_eq_some_iff.1 hd).1
    simp only [entryOf, hf.cycle_eq, List.length_take, Int.toNat_natCast]
    omega
  · intro k entry hk
    obtain ⟨done, hd, hf, rfl, -⟩ := h.follows_of_shown hk
    exact ⟨done, hd, hf.describes⟩
  · intro k entry change hk hchange
    obtain ⟨done, hd, hf, rfl, htake⟩ := h.follows_of_shown hk
    rw [htake, replayAll_map_entryOf]
    exact hf.old_of_change hchange
  · simp only [displayOf]
    exact hstate
  · rw [hregisters, length_replay]
  · intro hle
    rw [List.take_of_length_le hle, replayAll_map_entryOf, hregisters]
  · exact pairwise_nonzero m.memory
  · intro address v
    exact mem_nonzero_iff hm
  · simp only [displayOf, ho, Text.joinLines]
  · exact hw

/-- The four texts of a display agree with one another. Of the instructions that a run has completed
the summary has the number; the trace shows the first hundred, numbered from zero, and counts the
others; an entry has a change exactly if its instruction has changed a register, and the change is
one, from the value that the register has after all changes before it. The changes of all entries,
if all are shown, make the registers of the state out of registers that are all zero, and the cells
of the state are those, in ascending order, in which the instructions have left something in a
memory that was all zero. The output is the lines that the instructions have written. Nothing that
a machine had loaded or executed before has a part in this. -/
theorem display_agrees {text inputs : String} {amount : Amount} {program : Program}
    {display : Display} (hb : isBlankProgram text = false)
    (hp : Program.ofText text = .ok program) (h : runFor text inputs amount = .ok display) :
    ∃ limit, amount.cycles = .ok limit ∧
      (∃ entries registers cells written,
        Agrees display ((loaded inputs program).completedByRun (some limit) 0) entries registers
          cells written) ∧
      ∀ used : Machine, used.toWorld = (machine inputs).toWorld → used.tracing = true →
        used.limit = none →
        ∃ m ran result, used.loadText text editorFile = (.ok (), m) ∧
          m.runWithin limit = (.ok result, ran) ∧ display = displayOf ran result := by
  obtain ⟨limit, ran, result, hl, hr, rfl⟩ := runFor_eq_ok hb hp h
  let m := loaded inputs program
  have hrun : m.run (some limit) 0 = (some (.ok result), ran) := by
    rw [Machine.run_of_limit rfl rfl rfl, hr]
  have hcreate :
      Machine.create Memory.standardSize { pending := inputLines inputs } Memory.standardSize none
        true = .ok (machine inputs) := rfl
  have hload : (machine inputs).loadText text editorFile = (.ok (), m) :=
    loadText_eq_loaded hp rfl rfl rfl
  have hremembers : m.Remembers Memory.standardSize [] := by
    have hloaded := (Machine.remembers_create hcreate).apply (.loadText text editorFile)
    simpa [Machine.apply, Machine.eventsOf, hload] using hloaded
  have hstart : Retraced m.restart Memory.standardSize program [] :=
    ⟨hremembers.consistent, rfl, rfl, rfl, ⟨Cpu.initial, rfl, rfl, rfl⟩, by simp⟩
  refine ⟨limit, hl, ?_, ?_⟩
  · have hretraced := Machine.run_invariant (P := fun s => Retraced s Memory.standardSize program)
      (fun s entries entry next hs hstep => hs.step_ok hstep)
      (fun s entries failure next hs hstep => hs.step_error hstep) rfl rfl hstart (some limit) 0
    have hmemory := hremembers.run (some limit) 0
    obtain ⟨htrace, hcycles⟩ := Machine.result_of_run hremembers.consistent (congrArg Prod.fst hrun)
    obtain ⟨last, hconverses, hend⟩ := hremembers.consistent.run_converses rfl rfl (some limit) 0
    obtain ⟨written, houtputs, hwritten⟩ := hconverses.outputs
    have hout : (m.run (some limit) 0).2.console.outputs = written := by
      rcases hend with ⟨hkept, -⟩ | ⟨instruction, -, -, hread, -⟩
      · rw [hkept]
        exact houtputs
      · rw [hread, Console.outputs_readLine]
        exact houtputs
    rw [hretraced.trace_eq] at hwritten
    rw [hrun] at hretraced hmemory htrace hcycles hout
    obtain ⟨registers, hagrees⟩ := hretraced.agrees hmemory hout hwritten htrace hcycles
    exact ⟨_, registers, _, written, hagrees⟩
  · intro used hw ht hlimit
    exact ⟨m, ran, result, loadText_eq_loaded hp hw ht hlimit, hr, rfl⟩

/-- A register is changed and stored, and the run is aborted behind its output. -/
theorem display_agrees_aborted :
    let text := "MOV R1, #5\nSTR R1, 3\nOUT R1\nLDR R2, 256"
    let program : Program :=
      { instructions := #[{ text := "MOV R1, #5", line := 1 }, { text := "STR R1, 3", line := 2 },
                          { text := "OUT R1", line := 3 }, { text := "LDR R2, 256", line := 4 }] }
    Program.ofText text = .ok program ∧
      ∃ display, runFor text "" (.whole 10) = .ok display ∧ display.output = "5" ∧
        ∃ entries registers cells written,
          Agrees display ((loaded "" program).completedByRun (some 10) 0) entries registers cells
            written := by
  intro text program
  have hb : isBlankProgram text = false := by decide +kernel
  have hp : Program.ofText text = .ok program := by decide +kernel
  have ho : (runFor text "" (.whole 10)).toOption.map (·.output) = some "5" := by decide +kernel
  cases hr : runFor text "" (.whole 10) with
  | error reason =>
      rw [hr] at ho
      cases ho
  | ok display =>
      rw [hr] at ho
      obtain ⟨limit, hl, hagrees, -⟩ := display_agrees hb hp hr
      obtain rfl : limit = 10 := (Except.ok.inj hl).symm
      exact ⟨hp, display, rfl, Option.some.inj ho, hagrees⟩

end RegisterMachine.Playground
