import RegisterMachine.Machine.Report
import RegisterMachine.Machine.Run
import RegisterMachine.Playground.Amount
import RegisterMachine.Text.Layout

/-!
# The playground

Runs a program on a fresh machine and shows the outcome as four texts: the output, a summary, the
trace and the final state.
-/

namespace RegisterMachine.Playground

structure Display where
  output : String := ""
  summary : String := ""
  trace : String := ""
  state : String := ""
  deriving DecidableEq, Repr

def editorFile : String := "<editor>"

def shownEntries : Nat := 100

def summaryText (m : Machine) (result : RunResult) : String :=
  let status := if result.ok then "Completed" else "Aborted"
  let traceback := if result.ok then [] else ["", result.traceback]
  Text.joinLines <|
    ["EXECUTION SUMMARY", Text.rule '=' 40, s!"Status: {status}", s!"Cycles: {result.cycles}",
      s!"Instructions: {m.instructionTexts.length}", s!"Labels: {namedMapping m.labels}"] ++
    traceback

/-- A trace entry, after an empty line. Registers that did not change are not named. -/
def entryLines (entry : TraceEntry) : List String :=
  let changes := if entry.changes.isEmpty then [] else [s!"Changes:     {entry.changesText}"]
  ["", s!"--- Cycle {entry.cycle} (PC={entry.before.pc}, line {entry.instruction.line}) ---",
    s!"Instruction: {entry.instruction.text}"] ++ changes

/-- The trace from its start, with a count of the entries that are left out. -/
def traceText (trace : List TraceEntry) : String :=
  let rest :=
    if shownEntries < trace.length then
      ["", s!"... ({trace.length - shownEntries} more entries)"]
    else []
  Text.joinLines <|
    ["EXECUTION TRACE", Text.rule '=' 60] ++ (trace.take shownEntries).flatMap entryLines ++ rest

/-- A register with its value; a mark shows that it is not zero. -/
def registerLine (name : String) (v : Int) : String :=
  let mark := if v = 0 then "" else " *"
  s!"  {Text.alignRight 3 name}: {Text.alignRight 11 (toString v)}{mark}"

def cellLine (address : Nat) (v : Int) : String :=
  s!"  [{Text.alignRight 3 (toString address)}]: {Text.alignRight 11 (toString v)}"

def stateText (m : Machine) : String :=
  let registers := m.cpu.elim [] fun cpu => cpu.named.map fun (name, v) => registerLine name v
  let cells := m.memory.nonzero.map fun (address, v) => cellLine address v
  Text.joinLines <|
    ["FINAL REGISTERS", Text.rule '=' 30] ++ registers ++
      ["", "MEMORY (non-zero)", Text.rule '-' 30] ++ cells

/-- The lines of input that a text holds; blank ones are left out. -/
def inputLines (inputs : String) : List String :=
  ((Text.lines inputs.toList).filter fun line => !(Text.trim line).isEmpty).map String.ofList

/-- The machine on which the playground runs a program, before it is loaded. -/
def machine (inputs : String) : Machine :=
  { memory := Memory.standard, console := { pending := inputLines inputs }, tracing := true }

def isBlankProgram (program : String) : Bool :=
  (Text.trim program.toList).isEmpty

def run (program inputs : String) (limit : Int) : Except Crash Display :=
  if isBlankProgram program then .ok { summary := "Error: No program provided" }
  else
    match (machine inputs).loadText program editorFile with
    | (.error error, _) => .ok { summary := s!"Load error: {error.message}" }
    | (.ok _, m) =>
        let (result, m) := m.runWithin limit
        result.map fun result =>
          { output := Text.joinLines m.console.outputs
            summary := summaryText m result
            trace := traceText result.trace.toList
            state := stateText m }

/-- Runs a program for at most an amount of cycles. The amount of a blank program does not
matter. -/
def runFor (program inputs : String) (amount : Amount) : Except Crash Display :=
  match amount.cycles with
  | .ok limit => run program inputs limit
  | .error reason => if isBlankProgram program then run program inputs 0 else .error reason

end RegisterMachine.Playground
