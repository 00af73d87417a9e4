import RegisterMachine.CommandLine.Usage
import RegisterMachine.Session

/-!
# The command line

Runs one script whose path is given, or a session that asks for paths.
-/

namespace RegisterMachine.CommandLine

/-- What a command leaves: its exit status, unless it broke off, what it showed on the console and
what it wrote beside it. -/
structure Performance where
  status : Except Break Nat
  console : Console
  diagnostics : String := ""

def Performance.ofSession (status : Except Break Nat) (s : Session) : Performance :=
  { status
    console := s.machine.console
    diagnostics := String.join (s.log.toList.map (· ++ "\n")) }

def openSession (options : Options) (console : Console) : Session :=
  { machine :=
      { memory := Memory.standard, console, tracing := options.trace
        limit := options.limit.bind Limit.cycles? } }

/-- Runs the script that is asked for, or the scripts that the console names if there is none. An
empty path counts as none. -/
def conduct (options : Options) (read : FileReader) (console : Console) (budget : Nat) :
    Except Break Nat × Session :=
  let settings : SessionSettings :=
    { read, trace := options.trace, listing := options.listing, verbose := options.verbose
      blankLimit := options.limit = some .blank, budget }
  let s := openSession options console
  match options.path.filter (· ≠ "") with
  | some path =>
      let (result, s) :=
        (s.notify s!"Running script from command-line argument: {path}").runScript settings path
      (result.map fun ok => if ok then 0 else 1, s)
  | none =>
      let (result, s) := s.interact settings
      (result.map fun _ => 0, s)

def start (options : Options) (read : FileReader) (console : Console) (budget : Nat) :
    Performance :=
  let (status, s) := conduct options read console budget
  .ofSession status s

/-- Carries out a command. A run without a limit may take as many steps as the budget says. -/
def perform (words : List String) (read : FileReader) (console : Console) (budget : Nat) :
    Performance :=
  match Request.ofTexts words with
  | .help => { status := .ok 0, console := console.notify helpText }
  | .refuse error => { status := .ok 2, console, diagnostics := refusalText error }
  | .start options => start options read console budget

end RegisterMachine.CommandLine
