import RegisterMachine.CommandLine

/-!
# The program

Reads the standard input and the files that it or the arguments can name, carries out the command
and shows what it leaves.
-/

namespace RegisterMachine

def unlimitedBudget : Nat := 1000000000000000000

def ReadError.ofSystem : IO.Error → ReadError
  | .invalidArgument _ 36 _ => .nameTooLong
  | .inappropriateType _ 21 _ => .isDirectory
  | .inappropriateType _ _ _ => .notDirectory
  | _ => .missing

def readFiles (paths : List String) : IO FileReader := do
  let mut found : List (String × Except ReadError (List UInt8)) := []
  for path in paths do
    let entry ←
      try pure (.ok (← IO.FS.readBinFile path).toList)
      catch error => pure (.error (.ofSystem error))
    found := (path, entry) :: found
  let table := found
  return fun path => (table.lookup path).getD (.error .missing)

partial def readAll (stream : IO.FS.Stream) (text : String) : IO String := do
  let line ← stream.getLine
  if line.isEmpty then return text else readAll stream (text ++ line)

end RegisterMachine

open RegisterMachine in
def main (words : List String) : IO UInt32 := do
  let input ← readAll (← IO.getStdin) ""
  let lines := Text.feedLines input.toList
  let named := words ++ lines.map fun line => String.ofList (Text.trim line)
  let read ← readFiles (named.filter isScriptPath)
  let console : Console := { pending := lines.map String.ofList }
  let performance := CommandLine.perform words read console unlimitedBudget
  (← IO.getStdout).putStr performance.console.screen
  (← IO.getStderr).putStr performance.diagnostics
  match performance.status with
  | .ok code => return code.toUInt32
  | .error (.crash reason) =>
      (← IO.getStderr).putStrLn reason.message
      return 1
  | .error .outOfBudget => return 1
