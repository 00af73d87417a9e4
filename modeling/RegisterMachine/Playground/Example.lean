import RegisterMachine.Text.Layout

/-!
# Example programs

Programs that come with the playground, under the names by which they are chosen.
-/

namespace RegisterMachine.Playground

structure Example where
  name : String
  program : List String
  inputs : List String := []
  deriving DecidableEq, Repr

namespace Example

def sum : Example :=
  { name := "Sum 1-10"
    program :=
      ["// R0 = sum, R1 = counter",
        "    MOV R0, #0",
        "    MOV R1, #1",
        "loop:",
        "    ADD R0, R0, R1",
        "    ADD R1, R1, #1",
        "    CMP R1, #11",
        "    BNE loop",
        "// prints 55",
        "    OUT R0",
        "    HALT"] }

def fibonacci : Example :=
  { name := "Fibonacci to memory"
    program :=
      ["// R0 = previous, R1 = current, R2 = address",
        "    MOV R0, #0",
        "    MOV R1, #1",
        "    MOV R2, #0",
        "loop:",
        "    STR R0, R2",
        "    ADD R3, R0, R1",
        "    MOV R0, R1",
        "    MOV R1, R3",
        "    ADD R2, R2, #1",
        "    CMP R2, #10",
        "    BLT loop",
        "    LDR R4, 9",
        "// prints 34",
        "    OUT R4",
        "    HALT"] }

def multiply : Example :=
  { name := "Multiply inputs"
    program :=
      ["    IN R1",
        "    IN R2",
        "    MOV R0, #0",
        "loop:",
        "    CMP R2, #0",
        "    BEQ done",
        "    ADD R0, R0, R1",
        "    SUB R2, R2, #1",
        "    B loop",
        "done:",
        "    OUT R0",
        "    HALT"]
    inputs := ["7", "6"] }

def custom : Example :=
  { name := "Custom", program := [] }

def all : List Example :=
  [sum, fibonacci, multiply, custom]

def programText (e : Example) : String :=
  Text.joinLines e.program

def inputText (e : Example) : String :=
  Text.joinLines e.inputs

/-- The texts to fill in for a name. An unknown name empties them. -/
def texts (name : String) : String × String :=
  match all.find? (·.name == name) with
  | some e => (e.programText, e.inputText)
  | none => ("", "")

end Example

end RegisterMachine.Playground
