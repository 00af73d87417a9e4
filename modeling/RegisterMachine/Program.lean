import RegisterMachine.Crash
import RegisterMachine.Index

/-!
# Programs

A program is a list of instructions, still as text, and a table of labels. The position of an
instruction in the list is its address.
-/

namespace RegisterMachine

/-- Label names with the addresses they stand for. A name occurs once. -/
structure Labels where
  entries : List (String × Int) := []
  deriving DecidableEq, Repr

namespace Labels

def find? (labels : Labels) (name : String) : Option Int :=
  labels.entries.lookup name

def contains (labels : Labels) (name : String) : Bool :=
  (labels.find? name).isSome

/-- Gives a name a target. A new name goes to the end; an old one keeps its place. -/
def insert (labels : Labels) (name : String) (target : Int) : Labels :=
  if labels.contains name then
    { entries := labels.entries.map fun entry => if entry.1 = name then (name, target) else entry }
  else { entries := labels.entries ++ [(name, target)] }

def size (labels : Labels) : Nat :=
  labels.entries.length

theorem entries_insert_of_not_contains
    {labels : Labels} {name : String} (h : labels.contains name = false) (target : Int) :
    (labels.insert name target).entries = labels.entries ++ [(name, target)] := by
  simp [insert, h]

end Labels

structure Instruction where
  text : String
  line : Int
  deriving DecidableEq, Repr

structure Program where
  instructions : Array Instruction := #[]
  labels : Labels := {}
  deriving DecidableEq, Repr

/-- What an instruction can see of the program it belongs to. -/
structure Layout where
  labels : Labels := {}
  length : Int
  deriving DecidableEq, Repr

namespace Program

def length (program : Program) : Nat :=
  program.instructions.size

def layout (program : Program) : Layout :=
  { labels := program.labels, length := program.length }

/-- The instruction at an address. A negative address counts back from the end. -/
def fetch? (program : Program) (address : Int) : Option Instruction :=
  let position := if 0 ≤ address then address else address + program.length
  if 0 ≤ position then program.instructions[position.toNat]? else none

def fetch (program : Program) (address : Int) : Except Crash Instruction :=
  match program.fetch? address with
  | some instruction => .ok instruction
  | none => .error (if Index.inRange address then .noInstruction else .indexOverflow)

theorem fetch?_natCast (program : Program) (index : Nat) :
    program.fetch? index = program.instructions[index]? := by
  simp [fetch?]

theorem fetch_of_fetch?
    {program : Program} {address : Int} {instruction : Instruction}
    (h : program.fetch? address = some instruction) :
    program.fetch address = .ok instruction := by
  simp [fetch, h]

end Program

end RegisterMachine
