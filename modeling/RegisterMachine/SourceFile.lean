import RegisterMachine.Crash
import RegisterMachine.Text.Lines
import RegisterMachine.Text.Quoted
import RegisterMachine.Text.Utf8

/-!
# Source files

Reading the lines of a file by its path, and the reasons why that fails. How bytes are found for a
path is left open: any function from paths to bytes will do.
-/

namespace RegisterMachine

inductive ReadError where
  | missing
  | notDirectory
  | isDirectory
  | nameTooLong
  | notUtf8 (defect : Text.Utf8Defect)
  deriving DecidableEq, Repr

namespace ReadError

def defectText (defect : Text.Utf8Defect) : String :=
  let place :=
    if defect.count ≤ 1 then
      s!"byte 0x{String.ofList (Text.hexadecimal 2 defect.lead.toNat)} in position " ++
        s!"{defect.position}"
    else s!"bytes in position {defect.position}-{defect.position + defect.count - 1}"
  let reason :=
    match defect.reason with
    | .badStart => "invalid start byte"
    | .badContinuation => "invalid continuation byte"
    | .cutShort => "unexpected end of data"
  s!"'utf-8' codec can't decode {place}: {reason}"

def reason (error : ReadError) (path : String) : String :=
  match error with
  | .missing => s!"[Errno 2] No such file or directory: {Text.quote path}"
  | .notDirectory => s!"[Errno 20] Not a directory: {Text.quote path}"
  | .isDirectory => s!"[Errno 21] Is a directory: {Text.quote path}"
  | .nameTooLong => s!"[Errno 36] File name too long: {Text.quote path}"
  | .notUtf8 defect => defectText defect

def message (error : ReadError) (path : String) : String :=
  s!"Could not read '{path}': {error.reason path}"

end ReadError

abbrev FileReader :=
  String → Except ReadError (List UInt8)

/-- The lines of a text file. Reading one unifies its newlines before anything else is done with
its text. -/
def linesOfBytes (bytes : List UInt8) : Except ReadError (List String) :=
  match Text.decodeUtf8 bytes with
  | .error defect => .error (.notUtf8 defect)
  | .ok text => .ok ((Text.lines (Text.unifyNewlines text)).map String.ofList)

def readLines (read : FileReader) (path : String) : Except (Failure ReadError) (List String) :=
  if path.contains '\x00' then .error (.crash .nulInPath)
  else (read path >>= linesOfBytes).mapError .fault

end RegisterMachine
