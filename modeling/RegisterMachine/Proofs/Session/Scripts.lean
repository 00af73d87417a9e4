import RegisterMachine.Proofs.Machine.Conversation
import RegisterMachine.Proofs.Machine.Forgetting
import RegisterMachine.Proofs.Machine.Supply
import RegisterMachine.Proofs.Machine.Writes
import RegisterMachine.Session

/-!
# Scripts on one machine

A script changes the machine of its session by the instructions that it completes, and by nothing
else: cells that they store, lines that they write, and the listing in front of these if it is asked
for. That holds whether the script comes to its end, is aborted, or is never loaded. What it does
depends on the memory that it finds and on the lines that it reads, so that it does the same on any
other machine with that memory if it finds the same lines there.
-/

namespace RegisterMachine

namespace Machine

/-! ## Loads of files -/

/-- The file at a path can be read, and its source is that of a program. -/
def InFile (read : FileReader) (path : String) (program : Program) : Prop :=
  ∃ lines, readLines read path = .ok lines ∧ Program.ofLines lines = .ok program

/-- All that the load of a file can do, which is a matter of the file alone. -/
theorem loadFile_cases (read : FileReader) (path : String) :
    (∃ failure, (∀ program, ¬InFile read path program) ∧
      ∀ m : Machine, m.loadFile read path = (.error failure, m.unload)) ∨
    ∃ program, InFile read path program ∧
      ∀ m : Machine, m.loadFile read path = (.ok (), m.withProgram program path) := by
  cases hr : readLines read path with
  | error failure =>
      refine .inl ⟨failure.map (.unreadable path), ?_, fun m => by simp only [loadFile, hr]⟩
      rintro program ⟨lines, hl, -⟩
      cases hr.symm.trans hl
  | ok lines =>
      cases ho : Program.ofLines lines with
      | error e =>
          refine .inl ⟨.fault (.source e), ?_, fun m => ?_⟩
          · rintro program ⟨lines', hl, hp⟩
            cases hr.symm.trans hl
            cases ho.symm.trans hp
          · simp only [loadFile, hr, loadLines, ho]
            rfl
      | ok program =>
          refine .inr ⟨program, ⟨lines, hr, ho⟩, fun m => ?_⟩
          simp only [loadFile, hr, loadLines, ho]
          rfl

/-! ## What a run leaves -/

/-- What a cell holds after instructions, if it has held something before them. -/
def cellAfter (m : Machine) (entries : List TraceEntry) (address : Int) : Except Crash Int :=
  (latestWrite? (entries.map .completed) address).elim (m.memory.read address) fun v =>
    .ok (Word.wrap v)

theorem cellAfter_append (m : Machine) (entries : List TraceEntry) (entry : TraceEntry)
    (address : Int) :
    m.cellAfter (entries ++ [entry]) address =
      ((Event.completed entry).valueAt? address).elim (m.cellAfter entries address) fun v =>
        .ok (Word.wrap v) := by
  rw [cellAfter, List.map_append, List.map_singleton, latestWrite?_append]
  cases (Event.completed entry).valueAt? address <;> rfl

/-- A completed instruction does to a cell what its event says. -/
theorem read_of_step {m next : Machine} {entry : TraceEntry}
    (hs : m.step = (.ok (some entry), next)) (address : Int) :
    next.memory.read address =
      ((Event.completed entry).valueAt? address).elim (m.memory.read address) fun v =>
        .ok (Word.wrap v) := by
  obtain ⟨program, world, -, -, -, -, hx, hn⟩ := step_completes hs
  have hm : next.memory = world.memory := by rw [hn]
  rw [hm]
  rcases Registry.memory_of_execute hx with ⟨hstore, place, v, ha, hw⟩ | ⟨hstore, hk⟩
  · have he : (Event.completed entry).write? = some (place, v) :=
      TraceEntry.write?_of_stores (beq_iff_eq.2 hstore) ha
    rw [Memory.read_write hw, Event.valueAt?, he, Option.bind_some]
    split <;> rfl
  · have he : (Event.completed entry).write? = none :=
      TraceEntry.write?_of_not_store (beq_eq_false_iff_ne.2 hstore)
    rw [hk, Event.valueAt?, he]
    rfl

section
variable {m : Machine} {size : Int} (h : m.Consistent size) {program : Program} {cpu : Cpu}
  (hp : m.program = some program) (hc : m.cpu = some cpu) (limit : Option Int) (budget : Nat)
include h hp hc

/-- A run changes memory by the instructions that it completes. -/
theorem read_of_run (address : Int) :
    (m.run limit budget).2.memory.read address =
      m.cellAfter (m.completedByRun limit budget) address := by
  refine (run_invariant
    (P := fun s entries => s.Consistent size ∧ s.memory.read address = m.cellAfter entries address)
    ?_ ?_ hp hc ⟨h.restart, rfl⟩ limit budget).2
  · intro s entries entry next hs hstep
    refine ⟨hs.1.of_step hstep, ?_⟩
    rw [read_of_step hstep, hs.2, cellAfter_append]
  · intro s entries failure next hs hstep
    refine ⟨hs.1.of_step hstep, ?_⟩
    rw [hs.1.memory_of_failed_step hstep, hs.2]

/-- A run writes the lines of the instructions that it completes. -/
theorem outputs_of_run :
    ∃ written, (m.run limit budget).2.console.outputs = m.console.outputs ++ written ∧
      ((m.completedByRun limit budget).filter (·.isOutput)).map (·.line?) = written.map some := by
  obtain ⟨last, ending, -, ⟨hl, hconverses⟩, hends, -⟩ :=
    run_ends (P := fun s entries => s.Consistent size ∧ Converses m.console entries s.console)
      (fun s entries entry next hs hstep => by
        obtain ⟨program, world, -, -, -, -, hx, hn⟩ := step_completes hstep
        refine ⟨hs.1.of_step hstep, ?_⟩
        rw [hn]
        exact hs.2.execute hx)
      hp hc ⟨h.restart, Converses.refl m.console⟩ limit budget
  obtain ⟨written, houtputs, hwritten⟩ := hconverses.outputs
  refine ⟨written, ?_, hwritten⟩
  rw [← houtputs]
  rcases hends.eq_or_failed with hn | ⟨failure, hf⟩
  · rw [hn]
  · rcases hl.failed_step hf with ⟨-, hn⟩ | ⟨instruction, -, hread, hkept⟩
    · rw [hn]
    · by_cases hd : (Decoded.ofText instruction.text).ReadsInput
      · rw [hread hd]
        exact Console.outputs_readLine _ _
      · rw [hkept hd]

end

/-- A run leaves its machine with the limit that it had, and tracing or not as before. -/
theorem options_of_run {m : Machine} {program : Program} {cpu : Cpu}
    (hp : m.program = some program) (hc : m.cpu = some cpu) (limit : Option Int) (budget : Nat) :
    (m.run limit budget).2.limit = m.limit ∧ (m.run limit budget).2.tracing = m.tracing := by
  refine run_invariant (P := fun s _ => s.limit = m.limit ∧ s.tracing = m.tracing) ?_ ?_ hp hc
    ⟨rfl, rfl⟩ limit budget
  · intro s entries entry next hs hstep
    obtain ⟨-, world, -, -, -, -, -, hn⟩ := step_completes hstep
    rw [hn]
    exact hs
  · intro s entries failure next hs hstep
    rw [step_eq_error hstep]
    exact hs

end Machine

/-! ## Consoles with more on them -/

def Console.add (console : Console) (items : List Shown) : Console :=
  { console with shown := console.shown ++ items.toArray }

namespace Console

theorem foldl_push (item : String → Shown) (console : Console) (texts : List String) :
    texts.foldl (fun (console : Console) text =>
      { console with shown := console.shown.push (item text) }) console =
        console.add (texts.map item) := by
  induction texts generalizing console with
  | nil => simp [add]
  | cons text rest ih => simp [ih, add]

theorem writeAll_eq (console : Console) (lines : List String) :
    lines.foldl writeLine console = console.add (lines.map .output) :=
  foldl_push .output console lines

theorem notifyAll_eq (console : Console) (texts : List String) :
    texts.foldl notify console = console.add (texts.map .notice) :=
  foldl_push .notice console texts

@[simp] theorem outputs_add (console : Console) (items : List Shown) :
    (console.add items).outputs = console.outputs ++ items.filterMap Shown.output? := by
  simp [add, outputs]

@[simp] theorem prompts_add (console : Console) (items : List Shown) :
    (console.add items).prompts = console.prompts ++ items.filterMap Shown.prompt? := by
  simp [add, prompts]

theorem filterMap_map_output (texts : List String) :
    (texts.map Shown.output).filterMap Shown.output? = texts := by
  rw [List.filterMap_map, show Shown.output? ∘ Shown.output = some from rfl, List.filterMap_some]

/-- Notices are lines of no other sort. -/
theorem filterMap_map_notice {f : Shown → Option String} (h : ∀ text, f (.notice text) = none)
    (texts : List String) : (texts.map Shown.notice).filterMap f = [] := by
  simp [h]

end Console

/-! ## Machines that are spared -/

/-- A machine has the memory, the options and the lines of another one. What is loaded may differ,
and notices may have been shown. -/
structure Machine.Spared (m next : Machine) : Prop where
  memory_eq : next.memory = m.memory
  limit_eq : next.limit = m.limit
  tracing_eq : next.tracing = m.tracing
  pending_eq : next.console.pending = m.console.pending
  outputs_eq : next.console.outputs = m.console.outputs
  prompts_eq : next.console.prompts = m.console.prompts
  consistent : ∀ {size : Int}, m.Consistent size → next.Consistent size

namespace Machine.Spared

theorem refl (m : Machine) : m.Spared m :=
  ⟨rfl, rfl, rfl, rfl, rfl, rfl, id⟩

theorem trans {a b c : Machine} (h : a.Spared b) (h' : b.Spared c) : a.Spared c where
  memory_eq := h'.memory_eq.trans h.memory_eq
  limit_eq := h'.limit_eq.trans h.limit_eq
  tracing_eq := h'.tracing_eq.trans h.tracing_eq
  pending_eq := h'.pending_eq.trans h.pending_eq
  outputs_eq := h'.outputs_eq.trans h.outputs_eq
  prompts_eq := h'.prompts_eq.trans h.prompts_eq
  consistent := fun hc => h'.consistent (h.consistent hc)

theorem unload (m : Machine) : m.Spared m.unload :=
  ⟨rfl, rfl, rfl, rfl, rfl, rfl, Consistent.unload⟩

theorem addNotices (m : Machine) (texts : List String) :
    m.Spared { m with console := m.console.add (texts.map .notice) } where
  memory_eq := rfl
  limit_eq := rfl
  tracing_eq := rfl
  pending_eq := rfl
  outputs_eq := by
    rw [Console.outputs_add, Console.filterMap_map_notice fun _ => rfl, List.append_nil]
  prompts_eq := by
    rw [Console.prompts_add, Console.filterMap_map_notice fun _ => rfl, List.append_nil]
  consistent := fun hc => hc.withConsole _

theorem notify (m : Machine) (text : String) :
    m.Spared { m with console := m.console.notify text } :=
  ⟨rfl, rfl, rfl, rfl, Console.outputs_notify _ _, Console.prompts_notify _ _,
    fun hc => hc.withConsole _⟩

theorem consulted {m next : Machine} (h : m.Spared next) :
    Console.Consulted m.console next.console :=
  ⟨0, h.pending_eq, by simp [h.prompts_eq]⟩

end Machine.Spared

namespace Session

@[simp] theorem machine_record (s : Session) (settings : SessionSettings)
    (lines : Unit → List String) : (s.record settings lines).machine = s.machine := by
  unfold record
  split <;> rfl

theorem spared_notify (s : Session) (text : String) : s.machine.Spared (s.notify text).machine :=
  .notify s.machine text

/-! ## The log of a run -/

theorem toList_stepLogs (log : Array String) (m : Machine) (budget : Nat) :
    (stepLogs log m budget).toList = log.toList ++ (m.completed budget).map stepLog := by
  induction budget generalizing m log with
  | zero => exact (List.append_nil _).symm
  | succ budget ih =>
      cases hs : m.step with
      | mk result next =>
          rcases result with failure | none | entry
          · simp [stepLogs, Machine.completed, hs]
          · simp [stepLogs, Machine.completed, hs]
          · simp [stepLogs, Machine.completed, hs, ih]

/-- A log names the instructions that the run completes, in front of what it says of its end. -/
theorem runLog_eq {settings : SessionSettings} (hb : settings.blankLimit = false) (m : Machine)
    (result : Option RunResult) :
    runLog settings m result =
      (m.completedByRun none settings.budget).map stepLog ++ outcomeLog m result := by
  rw [runLog, hb, if_neg Bool.false_ne_true, toList_stepLogs]
  rfl

/-! ## Runs of a loaded script -/

/-- What is told about a script by the outcome of its run. -/
def verdict : Option (Except Crash RunResult) → Except Break Bool
  | none => .error .outOfBudget
  | some (.error reason) => .error (.crash reason)
  | some (.ok result) => .ok result.ok

def listed (settings : SessionSettings) (m : Machine) : Machine :=
  if settings.listing then m.display else m

/-- What is told about a run that has failed. -/
def complaint : Option (Except Crash RunResult) → List String
  | some (.ok result) => if result.ok then [] else [result.traceback]
  | _ => []

/-- The trace report of a machine after its run, if there is a result to report on. -/
def reportAfter (m : Machine) : Option (Except Crash RunResult) → List String
  | some (.ok _) => m.traceReport
  | _ => []

def remarks (settings : SessionSettings) (ran : Option (Except Crash RunResult) × Machine) :
    List String :=
  complaint ran.1 ++ if settings.trace then reportAfter ran.2 ran.1 else []

/-- A loaded script runs as its machine does, and nothing but remarks follow. -/
theorem runLoaded_eq (settings : SessionSettings) (hb : settings.blankLimit = false)
    (s : Session) :
    let ran := (listed settings s.machine).run none settings.budget
    (s.runLoaded settings).1 = verdict ran.1 ∧
      (s.runLoaded settings).2.machine =
        { ran.2 with console := ran.2.console.add ((remarks settings ran).map .notice) } := by
  have hrun : runMachine settings (listed settings s.machine) =
      (listed settings s.machine).run none settings.budget := by
    simp only [runMachine, hb, Bool.false_and, Bool.false_eq_true, if_false]
  unfold runLoaded
  rw [show (if settings.listing then s.machine.display else s.machine) =
    listed settings s.machine from rfl]
  dsimp only
  rw [hrun]
  cases (listed settings s.machine).run none settings.budget with
  | mk outcome ran =>
      rcases outcome with _ | reason | result
      · exact ⟨rfl, by simp [remarks, complaint, reportAfter, Console.add]⟩
      · exact ⟨rfl, by simp [remarks, complaint, reportAfter, Console.add]⟩
      · refine ⟨rfl, ?_⟩
        have hreport (console : Console) :
            ({ ran with console } : Machine).traceReport = ran.traceReport := rfl
        by_cases hok : result.ok = true <;> by_cases ht : settings.trace = true <;>
          simp [remarks, complaint, reportAfter, hok, ht, Session.notify, Console.notify,
            Machine.printTrace, Console.notifyAll_eq, Console.add, hreport]

/-- A loaded script runs as its machine does, and the report on it spares the machine. -/
theorem runLoaded_spec {settings : SessionSettings} (hb : settings.blankLimit = false)
    (s : Session) :
    (s.runLoaded settings).1 = verdict ((listed settings s.machine).run none settings.budget).1 ∧
      ((listed settings s.machine).run none settings.budget).2.Spared
        (s.runLoaded settings).2.machine := by
  obtain ⟨hverdict, hmachine⟩ := runLoaded_eq settings hb s
  rw [hmachine]
  exact ⟨hverdict, .addNotices _ _⟩

/-! ## Scripts -/

/-- The machine on which the run of a script starts, if the script can be loaded. -/
def ready? (settings : SessionSettings) (path : String) (m : Machine) : Option Machine :=
  if isScriptPath path then
    match m.loadFile settings.read path with
    | (.ok _, loaded) => some (listed settings loaded)
    | (.error _, _) => none
  else none

/-- A script crashes as it is loaded or as it is run. A path that is refused, a file that cannot be
read or loaded and an instruction that fails are no crashes. -/
inductive CrashesWith (settings : SessionSettings) (path : String) (m : Machine) (reason : Crash) :
    Prop where
  | load (is_script : isScriptPath path = true)
      (crash : (m.loadFile settings.read path).1 = .error (.crash reason))
  | run {ready : Machine} (is_ready : ready? settings path m = some ready)
      (crash : (ready.run none settings.budget).1 = some (.error reason))

/-- All that a script can do. Its path and the files alone decide whether it is loaded. If it is
not, then the machine is spared; otherwise its program is run. -/
theorem runScript_cases {settings : SessionSettings} (hb : settings.blankLimit = false)
    (path : String) :
    (∃ outcome, (∀ m, ready? settings path m = none) ∧
      (outcome = .ok false ∨ ∃ reason, outcome = .error (.crash reason) ∧
        ∀ m, CrashesWith settings path m reason) ∧
      ∀ s : Session, (s.runScript settings path).1 = outcome ∧
        s.machine.Spared (s.runScript settings path).2.machine) ∨
    ∃ program,
      (∀ m : Machine, m.loadFile settings.read path = (.ok (), m.withProgram program path)) ∧
      (∀ m, ready? settings path m = some (listed settings (m.withProgram program path))) ∧
      ∀ s : Session,
        (s.runScript settings path).1 =
          verdict ((listed settings (s.machine.withProgram program path)).run none
            settings.budget).1 ∧
        ((listed settings (s.machine.withProgram program path)).run none settings.budget).2.Spared
          (s.runScript settings path).2.machine := by
  by_cases hpath : isScriptPath path = true
  · rcases Machine.loadFile_cases settings.read path with ⟨failure, -, hload⟩ | ⟨program, -, hload⟩
    · have hnone (m : Machine) : ready? settings path m = none := by
        simp only [ready?, hpath, if_true, hload]
      have hspared (s : Session) : s.machine.Spared
          ({ s with machine := s.machine.unload }.record settings fun _ =>
            loadLog settings.read path).machine := by
        rw [machine_record]
        exact .unload s.machine
      cases failure with
      | crash reason =>
          have hcrash (m : Machine) : CrashesWith settings path m reason :=
            .load hpath (by rw [hload])
          refine .inl ⟨_, hnone, .inr ⟨reason, rfl, hcrash⟩, fun s => ?_⟩
          simp only [runScript, hpath, if_true, hload]
          exact ⟨trivial, hspared s⟩
      | fault error =>
          refine .inl ⟨.ok false, hnone, .inl rfl, fun s => ?_⟩
          simp only [runScript, hpath, if_true, hload]
          exact ⟨trivial, (hspared s).trans (spared_notify _ _)⟩
    · refine .inr ⟨program, hload, fun m => ?_, fun s => ?_⟩
      · simp only [ready?, hpath, if_true, hload]
      · have hspec := runLoaded_spec hb
          ({ s with machine := s.machine.withProgram program path }.record settings fun _ =>
            loadLog settings.read path)
        rw [machine_record] at hspec
        simp only [runScript, hpath, if_true, hload]
        exact hspec
  · have hnone (m : Machine) : ready? settings path m = none := by
      simp only [ready?, hpath]
      rfl
    refine .inl ⟨.ok false, hnone, .inl rfl, fun s => ?_⟩
    simp only [runScript, hpath]
    exact ⟨rfl, s.spared_notify _⟩

/-! ## Listings -/

def listingShown (settings : SessionSettings) (m : Machine) : List Shown :=
  if settings.listing then m.listing.map .output else []

/-- A machine that comes to its run is the loaded one, with its listing written if that is asked
for. -/
theorem listed_eq_add (settings : SessionSettings) (m : Machine) :
    listed settings m = { m with console := m.console.add (listingShown settings m) } := by
  unfold listed listingShown
  split
  · rw [Machine.display, Console.writeAll_eq]
  · simp [Console.add]

theorem listed_eq (settings : SessionSettings) (m : Machine) :
    listed settings m = { m with console := (listed settings m).console } ∧
      (listed settings m).console.pending = m.console.pending ∧
      (listed settings m).console.prompts = m.console.prompts ∧
      (listed settings m).console.outputs =
        m.console.outputs ++ (if settings.listing then m.listing else []) := by
  rw [listed_eq_add]
  refine ⟨rfl, rfl, ?_, ?_⟩
  · rw [Console.prompts_add, listingShown]
    split <;> simp [Shown.prompt?]
  · rw [Console.outputs_add, listingShown]
    split
    · rw [Console.filterMap_map_output]
    · rfl

/-! ## What a script leaves -/

/-- A session with a consistent machine that has a limit. -/
structure Steady (s : Session) (size limit : Int) : Prop where
  consistent : s.machine.Consistent size
  limit_eq : s.machine.limit = some limit

theorem Steady.spared {s next : Session} {size limit : Int} (h : s.Steady size limit)
    (hs : s.machine.Spared next.machine) : next.Steady size limit :=
  ⟨hs.consistent h.consistent, hs.limit_eq.trans h.limit_eq⟩

/-- The instructions that a script completes. One that is not loaded completes none. -/
def completedBy (settings : SessionSettings) (path : String) (m : Machine) : List TraceEntry :=
  (ready? settings path m).elim [] fun ready => ready.completedByRun none settings.budget

def listingOf (settings : SessionSettings) (path : String) (m : Machine) : List String :=
  if settings.listing then (ready? settings path m).elim [] Machine.listing else []

/-- A script has changed a machine by the instructions that it has completed: each cell holds what
they stored there last, or what it held before, and the lines that they have written stand behind
those from before and the listing. -/
structure Contributes (settings : SessionSettings) (path : String) (before after : Machine) :
    Prop where
  cells : ∀ address, after.memory.read address =
    before.cellAfter (completedBy settings path before) address
  outputs : ∃ written,
    after.console.outputs = before.console.outputs ++ listingOf settings path before ++ written ∧
    ((completedBy settings path before).filter (·.isOutput)).map (·.line?) = written.map some

section
variable {settings : SessionSettings} (hb : settings.blankLimit = false)
include hb

/-- A script asks for input only, and takes what is there. -/
theorem consulted_of_runScript (path : String) (s : Session) :
    Console.Consulted s.machine.console (s.runScript settings path).2.machine.console := by
  rcases runScript_cases hb path with ⟨_, -, -, hr⟩ | ⟨program, -, -, hr⟩
  · exact (hr s).2.consulted
  · obtain ⟨-, hpending, hprompts, -⟩ := listed_eq settings (s.machine.withProgram program path)
    have hlisted : Console.Consulted s.machine.console
        (listed settings (s.machine.withProgram program path)).console :=
      ⟨0, hpending, by rw [hprompts]; exact (List.append_nil _).symm⟩
    exact (hlisted.trans (Machine.consulted_of_run _ none settings.budget)).trans
      (hr s).2.consulted

/-- What breaks off a session is a crash. -/
theorem crashesWith_of_runScript {path : String} {s : Session} {reason : Crash}
    (he : (s.runScript settings path).1 = .error (.crash reason)) :
    CrashesWith settings path s.machine reason := by
  rcases runScript_cases hb path with ⟨_, -, houtcome, hr⟩ | ⟨program, -, hready, hr⟩
  · rw [(hr s).1] at he
    rcases houtcome with rfl | ⟨_, rfl, hcrash⟩
    · cases he
    · cases he
      exact hcrash s.machine
  · refine .run (hready s.machine) ?_
    rw [(hr s).1] at he
    generalize ((listed settings (s.machine.withProgram program path)).run none
      settings.budget).1 = outcome at he
    rcases outcome with _ | _ | _ <;> cases he
    rfl

variable {s : Session} {size limit : Int} (h : s.Steady size limit) (path : String)
include h

omit hb in
/-- The machine on which a loaded script is run. -/
theorem Steady.ready {program : Program} {path : String}
    (hload : ∀ m : Machine, m.loadFile settings.read path = (.ok (), m.withProgram program path)) :
    (listed settings (s.machine.withProgram program path)).Consistent size ∧
      (listed settings (s.machine.withProgram program path)).program = some program ∧
      (listed settings (s.machine.withProgram program path)).cpu = some Cpu.initial ∧
      (listed settings (s.machine.withProgram program path)).limit = some limit := by
  have hc := h.consistent.loadFile settings.read path
  rw [hload] at hc
  rw [(listed_eq settings (s.machine.withProgram program path)).1]
  exact ⟨hc.withConsole _, rfl, rfl, h.limit_eq⟩

theorem Steady.runScript : (s.runScript settings path).2.Steady size limit := by
  rcases runScript_cases hb path with ⟨_, -, -, hr⟩ | ⟨program, hload, -, hr⟩
  · exact h.spared (hr s).2
  · obtain ⟨hc, hp, hcpu, hl⟩ := h.ready hload
    have hran := (hr s).2
    have hoptions := Machine.options_of_run hp hcpu none settings.budget
    exact ⟨hran.consistent (hc.run none settings.budget).1,
      hran.limit_eq.trans (hoptions.1.trans hl)⟩

/-- With a limit, a script comes to an end or crashes. -/
theorem Steady.ne_outOfBudget : (s.runScript settings path).1 ≠ .error .outOfBudget := by
  rcases runScript_cases hb path with ⟨_, -, houtcome, hr⟩ | ⟨program, hload, -, hr⟩
  · rw [(hr s).1]
    rcases houtcome with rfl | ⟨_, rfl, -⟩ <;> nofun
  · obtain ⟨-, hp, hcpu, hl⟩ := h.ready hload
    have hor : (none : Option Int).or
        (listed settings (s.machine.withProgram program path)).limit = some limit := hl
    rw [(hr s).1, Machine.run_of_limit hp hcpu hor]
    generalize ((listed settings (s.machine.withProgram program path)).runWithin limit).1 = outcome
    cases outcome <;> nofun

theorem Steady.contributes :
    Contributes settings path s.machine (s.runScript settings path).2.machine := by
  rcases runScript_cases hb path with ⟨_, hready, -, hr⟩ | ⟨program, hload, hready, hr⟩
  · have hspared := (hr s).2
    refine ⟨fun address => ?_, [], ?_, ?_⟩
    · rw [completedBy, hready, hspared.memory_eq]
      rfl
    · rw [listingOf, hready, hspared.outputs_eq]
      simp
    · rw [completedBy, hready]
      rfl
  · obtain ⟨hc, hp, hcpu, -⟩ := h.ready hload
    have hran := (hr s).2
    obtain ⟨heq, -, -, houtputs⟩ := listed_eq settings (s.machine.withProgram program path)
    have hcompleted : completedBy settings path s.machine =
        (listed settings (s.machine.withProgram program path)).completedByRun none
          settings.budget := by
      rw [completedBy, hready, Option.elim_some]
    have hlisting : listingOf settings path s.machine =
        if settings.listing then (s.machine.withProgram program path).listing else [] := by
      rw [listingOf, hready, Option.elim_some, heq]
      rfl
    obtain ⟨written, hw, hlines⟩ := Machine.outputs_of_run hc hp hcpu none settings.budget
    refine ⟨fun address => ?_, written, ?_, by rw [hcompleted, hlines]⟩
    · rw [hran.memory_eq, Machine.read_of_run hc hp hcpu, hcompleted, heq]
      rfl
    · rw [hran.outputs_eq, hw, houtputs, hlisting]
      rfl

end

/-! ## The same scripts elsewhere -/

structure Alongside (a b : Session) : Prop where
  memory_eq : b.machine.memory = a.machine.memory
  limit_eq : b.machine.limit = a.machine.limit
  tracing_eq : b.machine.tracing = a.machine.tracing
  outputs_eq : b.machine.console.outputs = a.machine.console.outputs

theorem Alongside.symm {a b : Session} (h : a.Alongside b) : b.Alongside a :=
  ⟨h.memory_eq.symm, h.limit_eq.symm, h.tracing_eq.symm, h.outputs_eq.symm⟩

theorem Alongside.trans {a b c : Session} (h : a.Alongside b) (h' : b.Alongside c) :
    a.Alongside c where
  memory_eq := h'.memory_eq.trans h.memory_eq
  limit_eq := h'.limit_eq.trans h.limit_eq
  tracing_eq := h'.tracing_eq.trans h.tracing_eq
  outputs_eq := h'.outputs_eq.trans h.outputs_eq

theorem Alongside.of_spared {s next : Session} (h : s.machine.Spared next.machine) :
    s.Alongside next :=
  ⟨h.memory_eq, h.limit_eq, h.tracing_eq, h.outputs_eq⟩

section
variable {a b : Session} (h : a.Alongside b)
include h

theorem Alongside.withProgram (program : Program) (path : String) :
    b.machine.withProgram program path =
      { a.machine.withProgram program path with console := b.machine.console } := by
  change Machine.mk ⟨b.machine.memory, b.machine.console⟩ (some program) (some Cpu.initial) path #[]
    b.machine.tracing b.machine.limit = _
  rw [h.memory_eq, h.tracing_eq, h.limit_eq]
  rfl

/-- On both machines a script comes to its run in the same way. -/
theorem Alongside.listed (settings : SessionSettings) (program : Program) (path : String) :
    Session.listed settings (b.machine.withProgram program path) =
        { Session.listed settings (a.machine.withProgram program path) with
          console := (Session.listed settings (b.machine.withProgram program path)).console } ∧
      (Session.listed settings (b.machine.withProgram program path)).console.outputs =
        (Session.listed settings (a.machine.withProgram program path)).console.outputs := by
  obtain ⟨heqa, -, -, houta⟩ := listed_eq settings (a.machine.withProgram program path)
  obtain ⟨heqb, -, -, houtb⟩ := listed_eq settings (b.machine.withProgram program path)
  have hw := h.withProgram program path
  refine ⟨?_, ?_⟩
  · rw [heqa, heqb]
    generalize (Session.listed settings (b.machine.withProgram program path)).console = console
    rw [hw]
  · have hlisting : (b.machine.withProgram program path).listing =
        (a.machine.withProgram program path).listing := rfl
    have houtputs : (b.machine.withProgram program path).console.outputs =
        (a.machine.withProgram program path).console.outputs := h.outputs_eq
    rw [houta, houtb, hlisting, houtputs]

/-- A script does the same on both machines if it finds the lines there that it takes, and if there
are none behind them where there are none on the other machine. -/
theorem Alongside.runScript {settings : SessionSettings} (hb : settings.blankLimit = false)
    (path : String) {taken rest rest' : List String}
    (hpa : a.machine.console.pending = taken ++ rest)
    (hpb : b.machine.console.pending = taken ++ rest') (hrest : rest = [] → rest' = [])
    (he : (a.runScript settings path).2.machine.console.pending = rest) :
    (b.runScript settings path).1 = (a.runScript settings path).1 ∧
      (a.runScript settings path).2.Alongside (b.runScript settings path).2 ∧
      (b.runScript settings path).2.machine.console.pending = rest' := by
  rcases runScript_cases hb path with ⟨_, -, -, hr⟩ | ⟨program, -, -, hr⟩
  · obtain ⟨hoa, hsa⟩ := hr a
    obtain ⟨hob, hsb⟩ := hr b
    refine ⟨by rw [hoa, hob], ((Alongside.of_spared hsa).symm.trans h).trans (.of_spared hsb), ?_⟩
    rw [hsa.pending_eq, hpa] at he
    obtain rfl : taken = [] := List.append_left_eq_self.1 he
    rw [hsb.pending_eq, hpb, List.nil_append]
  · obtain ⟨hoa, hsa⟩ := hr a
    obtain ⟨hob, hsb⟩ := hr b
    obtain ⟨heqa, hpenda, -, -⟩ := listed_eq settings (a.machine.withProgram program path)
    obtain ⟨-, hpendb, -, -⟩ := listed_eq settings (b.machine.withProgram program path)
    obtain ⟨heqb, hout⟩ := h.listed settings program path
    generalize Session.listed settings (a.machine.withProgram program path) = ma at *
    generalize Session.listed settings (b.machine.withProgram program path) = mb at *
    have hp : ma.program = some program := by rw [heqa]; rfl
    have hc : ma.cpu = some Cpu.initial := by rw [heqa]; rfl
    obtain ⟨houtcome, hmemory, hpending, written, hwa, hwb⟩ :=
      Machine.run_of_taken hp hc none settings.budget (hpenda.trans hpa) (hpendb.trans hpb) hrest
        (hsa.pending_eq.symm.trans he)
    obtain ⟨hlima, htraa⟩ := Machine.options_of_run hp hc none settings.budget
    have hpb' : mb.program = some program := by rw [heqb]; exact hp
    have hcb' : mb.cpu = some Cpu.initial := by rw [heqb]; exact hc
    obtain ⟨hlimb, htrab⟩ := Machine.options_of_run hpb' hcb' none settings.budget
    rw [← heqb] at houtcome hmemory hpending hwb
    refine ⟨by rw [hoa, hob, houtcome], ⟨?_, ?_, ?_, ?_⟩, hsb.pending_eq.trans hpending⟩
    · rw [hsa.memory_eq, hsb.memory_eq, hmemory]
    · rw [hsa.limit_eq, hsb.limit_eq, hlima, hlimb, heqb]
    · rw [hsa.tracing_eq, hsb.tracing_eq, htraa, htrab, heqb]
    · rw [hsa.outputs_eq, hsb.outputs_eq, hwa, hwb, hout]

end

end Session

end RegisterMachine
