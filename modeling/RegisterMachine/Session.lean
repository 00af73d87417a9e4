import RegisterMachine.Machine.Report
import RegisterMachine.Machine.Run

/-!
# Sessions

Running scripts one after the other on one machine, each given by its path: a single one, or those
that are asked for on the console. What a script does to memory is there for the next one.
-/

namespace RegisterMachine

structure SessionSettings where
  read : FileReader
  trace : Bool := false
  listing : Bool := false
  verbose : Bool := false
  /-- A cycle limit is asked for, but it is blank. -/
  blankLimit : Bool := false
  /-- The steps that a run without a limit can take. -/
  budget : Nat

inductive Break where
  | crash (reason : Crash)
  | outOfBudget
  deriving DecidableEq, Repr

structure Session where
  machine : Machine
  log : Array String := #[]

def scriptExtension : String := ".assembly"

/-- Whether a path ends like that of a script, in letters of either case. Only ASCII letters have
small forms among the letters of the ending. -/
def isScriptPath (path : String) : Bool :=
  scriptExtension.toList.isSuffixOf (path.toList.map Char.toLower)

/-- Whether a line asks to leave, in letters of either case. The dotless i counts, since its
capital is that of i. -/
def asksToLeave (line : List Char) : Bool :=
  match line with
  | [e, x, i, t] =>
      ['e', 'E'].contains e && ['x', 'X'].contains x && ['i', 'I', '\u0131'].contains i &&
        ['t', 'T'].contains t
  | _ => false

def scriptPrompt : String := "Enter script path (.assembly) or EXIT :> "

/-! ## The log -/

def machineLog (text : String) : String :=
  "INFO aqa_vm.machine: " ++ text

def labelLog (label : String) (index : Int) : String :=
  s!"DEBUG aqa_vm.loader: Label {Text.quote label} -> {index}"

def stepLog (entry : TraceEntry) : String :=
  s!"DEBUG aqa_vm.machine: [{entry.before.pc}] {entry.instruction.text} -> PC={entry.after.pc}"

def labelLogs (program : Program) : List String :=
  program.labels.entries.map fun (label, index) => labelLog label index

def labelLogsBefore (lines : List String) (error : SourceError) : List String :=
  match Program.ofLines (lines.take (error.number - 1)) with
  | .ok program => labelLogs program
  | .error _ => []

def loadLog (read : FileReader) (path : String) : List String :=
  match readLines read path with
  | .error (.fault error) => [machineLog (error.message path)]
  | .error (.crash _) => []
  | .ok lines =>
      match Program.ofLines lines with
      | .ok program =>
          labelLogs program ++
            [machineLog (s!"Loaded {path}: {program.length} instructions, " ++
              s!"{program.labels.size} labels")]
      | .error error =>
          labelLogsBefore lines error ++ [machineLog s!"Failed to load {path}: {error.message}"]

/-- Adds the lines of the instructions that a machine completes in at most `budget` steps. -/
def stepLogs (log : Array String) (m : Machine) : Nat → Array String
  | 0 => log
  | budget + 1 =>
      match m.step with
      | (.ok (some entry), m) => stepLogs (log.push (stepLog entry)) m budget
      | _ => log

/-- What is logged about a run behind its steps. A run that broke off leaves only these. -/
def outcomeLog (m : Machine) : Option RunResult → List String
  | none => []
  | some result =>
      match result.error with
      | none => [machineLog s!"Run of {m.file} finished after {result.cycles} cycles"]
      | some report =>
          [machineLog s!"Run of {m.file} aborted at instruction {result.pc}: {report.message}"]

namespace Session

def notify (s : Session) (text : String) : Session :=
  { s with machine := { s.machine with console := s.machine.console.notify text } }

def record (s : Session) (settings : SessionSettings) (lines : Unit → List String) : Session :=
  if settings.verbose then { s with log := s.log ++ (lines ()).toArray } else s

/-- Runs the loaded script under the limit of its machine. A blank limit is noticed as soon as
there is an instruction to execute. -/
def runMachine (settings : SessionSettings) (m : Machine) :
    Option (Except Crash RunResult) × Machine :=
  if settings.blankLimit && !m.isFinished then (some (.error .blankLimit), m)
  else m.run none settings.budget

/-- What is logged about a run of the loaded script. A run under a blank limit takes no step. -/
def runLog (settings : SessionSettings) (m : Machine) (result : Option RunResult) : List String :=
  let steps :=
    if settings.blankLimit then #[]
    else stepLogs #[] m.restart (m.limit.elim settings.budget Int.toNat)
  steps.toList ++ outcomeLog m result

/-- Runs the loaded script and reports on it. Tells whether it ran to its end. -/
def runLoaded (settings : SessionSettings) (s : Session) : Except Break Bool × Session :=
  let loaded := if settings.listing then s.machine.display else s.machine
  let (outcome, machine) := runMachine settings loaded
  let s := { s with machine }
  match outcome with
  | none => (.error .outOfBudget, s.record settings fun _ => runLog settings loaded none)
  | some (.error reason) =>
      (.error (.crash reason), s.record settings fun _ => runLog settings loaded none)
  | some (.ok result) =>
      let s := s.record settings fun _ => runLog settings loaded (some result)
      let s := if result.ok then s else s.notify result.traceback
      let s := if settings.trace then { s with machine := s.machine.printTrace } else s
      (.ok result.ok, s)

/-- Loads and runs a script. Tells whether it loaded and ran to its end. -/
def runScript (settings : SessionSettings) (path : String) (s : Session) :
    Except Break Bool × Session :=
  if isScriptPath path then
    let (loaded, machine) := s.machine.loadFile settings.read path
    let s := { s with machine }.record settings fun _ => loadLog settings.read path
    match loaded with
    | .error (.crash reason) => (.error (.crash reason), s)
    | .error (.fault error) => (.ok false, s.notify s!"An error occurred: {error.message}")
    | .ok _ => s.runLoaded settings
  else
    (.ok false,
      s.notify
        s!"Error: Invalid file type. Please provide a path to a '{scriptExtension}' file.")

def askForScript (s : Session) : Option String × Session :=
  let (line, console) := s.machine.console.readLine scriptPrompt
  (line, { s with machine := { s.machine with console } })

/-- Asks for scripts and runs them until a line asks to leave or there is none. Blank lines are
passed over. Each turn takes a line, so as many turns as there are lines and one more do. -/
def converse (settings : SessionSettings) : Nat → Session → Except Break Unit × Session
  | 0, s => (.ok (), s)
  | turns + 1, s =>
      match s.askForScript with
      | (none, s) => (.ok (), s)
      | (some line, s) =>
          let path := Text.trim line.toList
          if path.isEmpty then converse settings turns s
          else if asksToLeave path then (.ok (), s)
          else
            match s.runScript settings (String.ofList path) with
            | (.error reason, s) => (.error reason, s)
            | (.ok _, s) => converse settings turns s

def interact (settings : SessionSettings) (s : Session) : Except Break Unit × Session :=
  let s := s.notify "AQA Assembly Language Environment (Interactive Mode)"
  let s := s.notify "----------------------------------------------------"
  match s.converse settings (s.machine.console.pending.length + 1) with
  | (.error reason, s) => (.error reason, s)
  | (.ok _, s) => (.ok (), s.notify "Exiting environment.")

end Session

end RegisterMachine
