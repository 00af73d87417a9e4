import RegisterMachine.Main
import RegisterMachine.Playground
import RegisterMachine.Playground.Example
import RegisterMachine.Proofs.Architecture.Refinement
import RegisterMachine.Proofs.Program.WellFormed
import RegisterMachine.Proofs.Instruction.Soundness
import RegisterMachine.Proofs.Machine.Steps
import RegisterMachine.Proofs.Machine.Consistency
import RegisterMachine.Proofs.Machine.History
import RegisterMachine.Proofs.Machine.Failures
import RegisterMachine.Proofs.Instruction.Roles
import RegisterMachine.Proofs.Instruction.Crashes
import RegisterMachine.Proofs.Instruction.Frame
import RegisterMachine.Proofs.Machine.Iterates
import RegisterMachine.Proofs.Machine.Reports
import RegisterMachine.Proofs.Machine.Atomicity
import RegisterMachine.Proofs.Machine.Limits
import RegisterMachine.Proofs.Instruction.Tokens
import RegisterMachine.Proofs.Instruction.Branches
import RegisterMachine.Proofs.Machine.Recent
import RegisterMachine.Proofs.Text.Lines
import RegisterMachine.Proofs.Text.Utf8
import RegisterMachine.Proofs.Machine.Sources
import RegisterMachine.Proofs.Instruction.World
import RegisterMachine.Proofs.Machine.Completed
import RegisterMachine.Proofs.Machine.Writes
import RegisterMachine.Proofs.Machine.Trace
import RegisterMachine.Proofs.Machine.Conversation
import RegisterMachine.Proofs.Machine.Locations
import RegisterMachine.Proofs.Instruction.Agreement
import RegisterMachine.Proofs.Machine.Forgetting
import RegisterMachine.Proofs.Program.Layout
import RegisterMachine.Proofs.Machine.Agreement
import RegisterMachine.Proofs.Machine.Reformatting
import RegisterMachine.Proofs.Machine.Resumption
import RegisterMachine.Proofs.Instruction.Causes
import RegisterMachine.Proofs.Machine.Independence
import RegisterMachine.Proofs.Program.Assembly
import RegisterMachine.Proofs.Instruction.Forms
import RegisterMachine.Proofs.Machine.Termination
import RegisterMachine.Proofs.Architecture.Runs
import RegisterMachine.Proofs.Playground.Display
import RegisterMachine.Proofs.Playground.Multiplication
import RegisterMachine.Proofs.Machine.Supply
import RegisterMachine.Proofs.Session.Scripts
import RegisterMachine.Proofs.Session.Dialogue
import RegisterMachine.Proofs.Registry.Growth
import RegisterMachine.Proofs.Instruction.Spelling
import RegisterMachine.Proofs.Instruction.Echo
import RegisterMachine.Proofs.CommandLine.Flags
import RegisterMachine.Proofs.Instruction.Registers
import RegisterMachine.Proofs.Word.Wrapping
