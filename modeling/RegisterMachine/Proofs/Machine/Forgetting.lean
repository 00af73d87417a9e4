import RegisterMachine.Proofs.Machine.History
import RegisterMachine.Proofs.Program.Placement

/-!
# What a load forgets

A machine is known by its answers. A load makes it forget what was loaded before: two machines with
the same memory and the same console answer everything alike from the load on, whatever programs,
processors, traces and files they had. A load that fails leaves the old name of the file behind, and
no answer shows it.
-/

namespace RegisterMachine.Machine

/-! ## Requests and answers -/

inductive Query where
  | isLoaded
  | isFinished
  | instructionTexts
  | labels
  | listing
  /-- The processor: registers, program counter and comparison. -/
  | state
  | register (index : Int)
  | cell (address : Int)
  | cycles
  | trace
  | summary
  deriving DecidableEq, Repr

inductive Request where
  | perform (operation : Operation)
  | inquire (query : Query)

/-- The answer to a request, which may be that it failed. -/
inductive Answer where
  | loaded (result : Except (Failure LoadError) Unit)
  | stepped (result : Except (Failure Report) (Option TraceEntry))
  | ran (result : Option (Except Crash RunResult))
  | written (result : Except Crash Unit)
  | done
  | flag (holds : Bool)
  | lines (lines : List String)
  | labels (entries : List (String × Int))
  | state (result : Except (Failure Report) Cpu)
  | register (result : Except (Failure Report) Int)
  | cell (result : Except Crash Int)
  | cycles (count : Int)
  | trace (entries : Array TraceEntry)
  | summary (summary : Summary)
  deriving DecidableEq

def answerQuery (m : Machine) : Query → Answer
  | .isLoaded => .flag m.isLoaded
  | .isFinished => .flag m.isFinished
  | .instructionTexts => .lines m.instructionTexts
  | .labels => .labels m.labels
  | .listing => .lines m.listing
  | .state => .state m.state
  | .register index => .register (m.readRegister index)
  | .cell address => .cell (m.readMemory address)
  | .cycles => .cycles m.cycles
  | .trace => .trace m.trace
  | .summary => .summary m.summary

/-- What comes back from an operation. The lines that it shows are part of that. -/
def answerOperation (m : Machine) : Operation → Answer
  | .loadText text file =>
      .loaded ((m.loadText text file).1.mapError fun error => .fault (.source error))
  | .loadLines lines file =>
      .loaded ((m.loadLines lines file).1.mapError fun error => .fault (.source error))
  | .loadFile read path => .loaded (m.loadFile read path).1
  | .step => .stepped m.step.1
  | .run limit budget => .ran (m.run limit budget).1
  | .writeMemory address v => .written ((m.writeMemory address v).map fun _ => ())
  | .display => .lines m.listing
  | .printTrace => .lines m.traceReport
  | .unload | .feed _ | .inspect => .done

def answer (m : Machine) : Request → Answer
  | .perform operation => m.answerOperation operation
  | .inquire query => m.answerQuery query

def serve (m : Machine) : Request → Machine
  | .perform operation => m.apply operation
  | .inquire _ => m

def answers (m : Machine) : List Request → List Answer
  | [] => []
  | request :: rest => m.answer request :: (m.serve request).answers rest

def serveAll (m : Machine) (requests : List Request) : Machine :=
  requests.foldl serve m

def Operation.isLoad : Operation → Bool
  | .loadText .. | .loadLines .. | .loadFile .. => true
  | _ => false

/-! ## Machines that answer alike -/

/-- Two machines are the same, or nothing is loaded in them and they are the same up to the name of
a file. -/
def Alike (a b : Machine) : Prop :=
  a = b ∨ a.program = none ∧ a.cpu = none ∧ b = { a with file := b.file }

/-! ## Loads -/

theorem loadParsed_cases (parsed : Except SourceError Program) (file : String) :
    (∃ e, ∀ m : Machine, m.loadParsed parsed file = (.error e, m.unload)) ∨
    ∃ program, ∀ m : Machine, m.loadParsed parsed file = (.ok (), m.withProgram program file) := by
  cases parsed with
  | error e => exact .inl ⟨e, fun m => rfl⟩
  | ok program => exact .inr ⟨program, fun m => rfl⟩

/-- All that a load can do: it fails and leaves nothing loaded, or it succeeds and leaves a program.
Which of them, and what comes back, is a matter of the source alone. -/
theorem load_cases {load : Operation} (h : load.isLoad = true) :
    (∃ failure, ∀ m : Machine, m.apply load = m.unload ∧
      m.answerOperation load = .loaded (.error failure)) ∨
    ∃ program file, ∀ m : Machine, m.apply load = m.withProgram program file ∧
      m.answerOperation load = .loaded (.ok ()) := by
  cases load with
  | loadText text file =>
      rcases loadParsed_cases (Program.ofText text) file with ⟨e, hl⟩ | ⟨program, hl⟩
      · refine .inl ⟨.fault (.source e), fun m => ?_⟩
        simp [apply, answerOperation, loadText, hl, Except.mapError]
      · refine .inr ⟨program, file, fun m => ?_⟩
        simp [apply, answerOperation, loadText, hl, Except.mapError]
  | loadLines lines file =>
      rcases loadParsed_cases (Program.ofLines lines) file with ⟨e, hl⟩ | ⟨program, hl⟩
      · refine .inl ⟨.fault (.source e), fun m => ?_⟩
        simp [apply, answerOperation, loadLines, hl, Except.mapError]
      · refine .inr ⟨program, file, fun m => ?_⟩
        simp [apply, answerOperation, loadLines, hl, Except.mapError]
  | loadFile read path =>
      cases hr : readLines read path with
      | error failure =>
          refine .inl ⟨failure.map (.unreadable path), fun m => ?_⟩
          simp [apply, answerOperation, loadFile, hr]
      | ok lines =>
          rcases loadParsed_cases (Program.ofLines lines) path with ⟨e, hl⟩ | ⟨program, hl⟩
          · refine .inl ⟨.fault (.source e), fun m => ?_⟩
            simp [apply, answerOperation, loadFile, hr, loadLines, hl, Except.mapError]
          · refine .inr ⟨program, path, fun m => ?_⟩
            simp [apply, answerOperation, loadFile, hr, loadLines, hl, Except.mapError]
  | _ => cases h

theorem answerOperation_of_isLoad {load : Operation} (h : load.isLoad = true) (a b : Machine) :
    a.answerOperation load = b.answerOperation load := by
  rcases load_cases h with ⟨failure, hl⟩ | ⟨program, file, hl⟩
  · rw [(hl a).2, (hl b).2]
  · rw [(hl a).2, (hl b).2]

theorem toWorld_of_isLoad {load : Operation} (h : load.isLoad = true) (m : Machine) :
    (m.apply load).toWorld = m.toWorld := by
  rcases load_cases h with ⟨failure, hl⟩ | ⟨program, file, hl⟩
  · rw [(hl m).1]
    rfl
  · rw [(hl m).1]
    rfl

section
variable {a b : Machine} (hw : a.toWorld = b.toWorld) (hl : a.limit = b.limit)
  (ht : a.tracing = b.tracing)
include hw hl ht

theorem alike_unload : a.unload.Alike b.unload := by
  refine .inr ⟨rfl, rfl, ?_⟩
  simp only [unload, hw, hl, ht]

theorem alike_of_isLoad {load : Operation} (h : load.isLoad = true) :
    (a.apply load).Alike (b.apply load) := by
  rcases load_cases h with ⟨failure, hload⟩ | ⟨program, file, hload⟩
  · rw [(hload a).1, (hload b).1]
    exact alike_unload hw hl ht
  · rw [(hload a).1, (hload b).1]
    refine .inl ?_
    simp only [withProgram, hw, hl, ht]

end

/-! ## Nothing loaded -/

section
variable {m : Machine} (hp : m.program = none) (file : String)
include hp

theorem answerQuery_of_file (hc : m.cpu = none) (query : Query) :
    ({ m with file } : Machine).answerQuery query = m.answerQuery query := by
  cases query <;> simp [answerQuery, isLoaded, isFinished, instructionTexts, Machine.labels,
    listing, state, readRegister, readMemory, cycles, summary, hp, hc]

theorem answerOperation_of_file (operation : Operation) :
    ({ m with file } : Machine).answerOperation operation = m.answerOperation operation := by
  have hn : ({ m with file } : Machine).program = none := hp
  cases operation with
  | loadText | loadLines | loadFile => exact answerOperation_of_isLoad rfl _ _
  | step => simp only [answerOperation, step_of_not_loaded hn, step_of_not_loaded hp]
  | run limit budget => simp only [answerOperation, run_of_not_loaded hn, run_of_not_loaded hp]
  | writeMemory address v =>
      simp only [answerOperation, writeMemory]
      cases m.memory.write address v <;> rfl
  | display => simp only [answerOperation, listing, hp]
  | printTrace => rfl
  | unload | feed | inspect => rfl

/-- Nothing but a load changes the program, the processor or the file of such a machine. -/
theorem alike_apply_of_file (hc : m.cpu = none) (operation : Operation) :
    (m.apply operation).Alike (({ m with file } : Machine).apply operation) := by
  have hn : ({ m with file } : Machine).program = none := hp
  have hw : m.toWorld = ({ m with file } : Machine).toWorld := rfl
  have hload (h : operation.isLoad = true) :
      (m.apply operation).Alike (({ m with file } : Machine).apply operation) :=
    alike_of_isLoad hw rfl rfl h
  cases operation with
  | loadText | loadLines | loadFile => exact hload rfl
  | unload => exact alike_unload hw rfl rfl
  | step =>
      simp only [apply, step_of_not_loaded hn, step_of_not_loaded hp]
      exact .inr ⟨hp, hc, rfl⟩
  | run limit budget =>
      simp only [apply, run_of_not_loaded hn, run_of_not_loaded hp]
      exact .inr ⟨hp, hc, rfl⟩
  | writeMemory address v =>
      simp only [apply, writeMemory]
      cases m.memory.write address v with
      | error reason => exact .inr ⟨hp, hc, rfl⟩
      | ok memory => exact .inr ⟨hp, hc, rfl⟩
  | feed lines => exact .inr ⟨hp, hc, rfl⟩
  | display =>
      simp only [apply, display, listing, hp]
      exact .inr ⟨rfl, hc, rfl⟩
  | printTrace => exact .inr ⟨hp, hc, rfl⟩
  | inspect => exact .inr ⟨hp, hc, rfl⟩

end

/-! ## Requests in order -/

namespace Alike

variable {a b : Machine} (h : a.Alike b)
include h

theorem toWorld_eq : a.toWorld = b.toWorld := by
  rcases h with rfl | ⟨-, -, hb⟩
  · rfl
  · rw [hb]

theorem answer (request : Request) : a.answer request = b.answer request := by
  rcases h with rfl | ⟨hp, hc, hb⟩
  · rfl
  · rw [hb]
    cases request with
    | perform operation => exact (answerOperation_of_file hp b.file operation).symm
    | inquire query => exact (answerQuery_of_file hp b.file hc query).symm

theorem serve (request : Request) : (a.serve request).Alike (b.serve request) := by
  rcases h with rfl | ⟨hp, hc, hb⟩
  · exact .inl rfl
  · cases request with
    | inquire query => exact .inr ⟨hp, hc, hb⟩
    | perform operation =>
        rw [hb]
        exact alike_apply_of_file hp b.file hc operation

theorem serveAll (requests : List Request) : (a.serveAll requests).Alike (b.serveAll requests) := by
  induction requests generalizing a b with
  | nil => exact h
  | cons request rest ih => exact ih (h.serve request)

theorem answers (requests : List Request) : a.answers requests = b.answers requests := by
  induction requests generalizing a b with
  | nil => rfl
  | cons request rest ih => simp only [Machine.answers, h.answer request, ih (h.serve request)]

end Alike

/-! ## Failed loads -/

/-- A machine that has no program says so wherever it is asked to do something with one. -/
structure Vacant (m : Machine) : Prop where
  program : m.program = none
  run : ∀ limit budget,
    (m.run limit budget).1 = some (.ok { ok := false, error := some { fault := .notLoaded } })
  step : m.step.1 = .error (.fault { fault := .notLoaded })
  loaded : m.summary.loaded = false
  cycles : m.summary.cycles = 0

theorem vacant_unload (m : Machine) : m.unload.Vacant where
  program := rfl
  run limit budget := by rw [run_of_not_loaded rfl]
  step := by rw [step_of_not_loaded rfl]
  loaded := rfl
  cycles := rfl

theorem vacant_of_failed_load {load : Operation} (h : load.isLoad = true) {m : Machine}
    {failure : Failure LoadError} (hf : m.answerOperation load = .loaded (.error failure)) :
    (m.apply load).Vacant := by
  rcases load_cases h with ⟨reason, hl⟩ | ⟨program, file, hl⟩
  · rw [(hl m).1]
    exact m.vacant_unload
  · rw [(hl m).2] at hf
    cases hf

/-- A load forgets everything but memory and console. Two machines that have these, their limit and
their tracing in common give the same answer to it, keep memory and console, and give the same
answers to all requests from then on, with the same memory and console after each of them. If the
load fails, then neither of them has a program any more. -/
theorem load_forgets {a b : Machine} (hw : a.toWorld = b.toWorld) (hl : a.limit = b.limit)
    (ht : a.tracing = b.tracing) {load : Operation} (h : load.isLoad = true) :
    a.answer (.perform load) = b.answer (.perform load) ∧
    (a.apply load).toWorld = a.toWorld ∧ (b.apply load).toWorld = b.toWorld ∧
    (∀ later, (a.apply load).answers later = (b.apply load).answers later ∧
      ((a.apply load).serveAll later).toWorld = ((b.apply load).serveAll later).toWorld) ∧
    ∀ failure, a.answer (.perform load) = .loaded (.error failure) →
      (a.apply load).Vacant ∧ (b.apply load).Vacant := by
  have hanswer : a.answerOperation load = b.answerOperation load := answerOperation_of_isLoad h a b
  have halike : (a.apply load).Alike (b.apply load) := alike_of_isLoad hw hl ht h
  refine ⟨hanswer, toWorld_of_isLoad h a, toWorld_of_isLoad h b, ?_, ?_⟩
  · intro later
    exact ⟨halike.answers later, (halike.serveAll later).toWorld_eq⟩
  · intro failure hf
    exact ⟨vacant_of_failed_load h hf, vacant_of_failed_load h (hanswer.symm.trans hf)⟩

/-- A label that is declared twice is refused by a new machine and by one in the middle of a
program. The names of their files differ after that, and nothing that they answer does. -/
theorem load_forgets_refused :
    let load : Operation := .loadLines ["end:", "end:"] "twice"
    let m : Machine :=
      { memory := .zeroed 4 (by decide) (by decide)
        console := { pending := ["7"] }
        tracing := true }
    let used := m.after [.loadText "MOV R1, #5\nADD R1, R1, #1" "old", .step]
    create 4 { pending := ["7"] } 4 none true = .ok m ∧ m.toWorld = used.toWorld ∧ used.cycles = 1 ∧
      (m.apply load).file = "<string>" ∧ (used.apply load).file = "old" ∧
      (m.apply load).Vacant ∧ (used.apply load).Vacant ∧
      ∀ later, (m.apply load).answers later = (used.apply load).answers later := by
  intro load m used
  have hw : m.toWorld = used.toWorld := rfl
  have hload : load.isLoad = true := rfl
  obtain ⟨-, -, -, hlater, hfailed⟩ := load_forgets hw rfl rfl hload
  have hrefused : m.answer (.perform load) =
      .loaded (.error (.fault (.source (.duplicateLabel "end" 2 "end:")))) := by decide +kernel
  refine ⟨rfl, hw, by decide +kernel, rfl, by decide +kernel, (hfailed _ hrefused).1,
    (hfailed _ hrefused).2, ?_⟩
  intro later
  exact (hlater later).1

end RegisterMachine.Machine
