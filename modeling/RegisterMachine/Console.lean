/-!
# The console

Lines that wait to be read, and a record of all that was shown: prompts, lines of output and
notices of the environment around the machine.
-/

namespace RegisterMachine

inductive Shown where
  /-- Text that asks for a line of input. -/
  | prompt (text : String)
  /-- A line written by the machine. -/
  | output (text : String)
  /-- A line written by the environment. -/
  | notice (text : String)
  deriving DecidableEq, Repr

def Shown.output? : Shown → Option String
  | .output text => some text
  | _ => none

def Shown.prompt? : Shown → Option String
  | .prompt text => some text
  | _ => none

def Shown.notice? : Shown → Option String
  | .notice text => some text
  | _ => none

structure Console where
  pending : List String := []
  shown : Array Shown := #[]
  deriving DecidableEq, Repr

namespace Console

/-- Shows a prompt and takes the next line, if one is left. -/
def readLine (console : Console) (prompt : String) : Option String × Console :=
  (console.pending.head?,
    { pending := console.pending.tail, shown := console.shown.push (.prompt prompt) })

def writeLine (console : Console) (text : String) : Console :=
  { console with shown := console.shown.push (.output text) }

def notify (console : Console) (text : String) : Console :=
  { console with shown := console.shown.push (.notice text) }

def feed (console : Console) (lines : List String) : Console :=
  { console with pending := console.pending ++ lines }

def outputs (console : Console) : List String :=
  console.shown.toList.filterMap Shown.output?

def prompts (console : Console) : List String :=
  console.shown.toList.filterMap Shown.prompt?

def notices (console : Console) : List String :=
  console.shown.toList.filterMap Shown.notice?

/-- The screen of a terminal: a prompt leaves the cursor on its line. -/
def screen (console : Console) : String :=
  String.join (console.shown.toList.map fun
    | .prompt text => text
    | .output text => text ++ "\n"
    | .notice text => text ++ "\n")

@[simp] theorem outputs_writeLine (console : Console) (text : String) :
    (console.writeLine text).outputs = console.outputs ++ [text] := by
  simp [writeLine, outputs, Shown.output?]

@[simp] theorem prompts_writeLine (console : Console) (text : String) :
    (console.writeLine text).prompts = console.prompts := by
  simp [writeLine, prompts, Shown.prompt?]

@[simp] theorem outputs_notify (console : Console) (text : String) :
    (console.notify text).outputs = console.outputs := by
  simp [notify, outputs, Shown.output?]

@[simp] theorem prompts_notify (console : Console) (text : String) :
    (console.notify text).prompts = console.prompts := by
  simp [notify, prompts, Shown.prompt?]

@[simp] theorem outputs_readLine (console : Console) (prompt : String) :
    (console.readLine prompt).2.outputs = console.outputs := by
  simp [readLine, outputs, Shown.output?]

@[simp] theorem prompts_readLine (console : Console) (prompt : String) :
    (console.readLine prompt).2.prompts = console.prompts ++ [prompt] := by
  simp [readLine, prompts, Shown.prompt?]

end Console

end RegisterMachine
