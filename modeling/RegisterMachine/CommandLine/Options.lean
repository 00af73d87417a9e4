import RegisterMachine.Text.Integer
import RegisterMachine.Text.Quoted

/-!
# Options

The words of a command line and what they ask for. Each word is first taken by itself as an
option, an argument or the mark `--`, after which all words are arguments; then the words are
consumed from left to right. Long options may be shortened and take their argument after an equals
sign or as the next word; short ones may be joined.
-/

namespace RegisterMachine.CommandLine

inductive Limit where
  | cycles (limit : Int)
  | blank
  deriving DecidableEq, Repr

def Limit.cycles? : Limit → Option Int
  | .cycles limit => some limit
  | .blank => none

structure Options where
  path : Option String := none
  limit : Option Limit := none
  trace : Bool := false
  listing : Bool := false
  verbose : Bool := false
  deriving DecidableEq, Repr

inductive Flag where
  | help | trace | listing | verbose
  deriving DecidableEq, Repr

inductive OptionKind where
  | flag (f : Flag)
  | maxCycles
  deriving DecidableEq, Repr

def spellings : List (String × OptionKind) :=
  [("-h", .flag .help), ("--help", .flag .help), ("--max-cycles", .maxCycles),
    ("--trace", .flag .trace), ("-t", .flag .trace), ("--listing", .flag .listing),
    ("-l", .flag .listing), ("--verbose", .flag .verbose), ("-v", .flag .verbose)]

def OptionKind.title : OptionKind → String
  | .flag .help => "-h/--help"
  | .flag .trace => "--trace/-t"
  | .flag .listing => "--listing/-l"
  | .flag .verbose => "--verbose/-v"
  | .maxCycles => "--max-cycles"

inductive UsageError where
  | ambiguous (word : String) (candidates : List String)
  | ignoredArgument (option : OptionKind) (argument : String)
  | missingArgument (option : OptionKind)
  | badInteger (option : OptionKind) (argument : String)
  | unrecognized (words : List String)
  deriving DecidableEq, Repr

def UsageError.message : UsageError → String
  | .ambiguous word candidates =>
      s!"ambiguous option: {word} could match " ++ ", ".intercalate candidates
  | .ignoredArgument option argument =>
      s!"argument {option.title}: ignored explicit argument {Text.quote argument}"
  | .missingArgument option => s!"argument {option.title}: expected one argument"
  | .badInteger option argument =>
      s!"argument {option.title}: invalid int value: {Text.quote argument}"
  | .unrecognized words => "unrecognized arguments: " ++ " ".intercalate words

/-- What a word of a command line is by itself. An option may carry an argument in the same word;
`short` tells that it was spelt with a single dash. -/
inductive Token where
  | argument (text : String)
  | option (kind : OptionKind) (short : Bool) (attached : Option (List Char))
  | unknown (text : String)
  | mark
  deriving DecidableEq, Repr

def splitAtEquals (text : List Char) : List Char × Option (List Char) :=
  match text.dropWhile (· ≠ '=') with
  | [] => (text, none)
  | _ :: after => (text.takeWhile (· ≠ '='), some after)

def otherToken (word : String) : Token :=
  if Text.isNegativeNumber word.toList || word.contains ' ' then .argument word
  else .unknown word

/-- A word with two dashes: the options that its text before an equals sign shortens. -/
def longToken (word : String) : Except UsageError Token :=
  let (start, attached) := splitAtEquals word.toList
  match spellings.filter fun (spelling, _) => start.isPrefixOf spelling.toList with
  | [] => .ok (otherToken word)
  | [(_, kind)] => .ok (.option kind false attached)
  | candidates => .error (.ambiguous word (candidates.map (·.1)))

def shortToken (word : String) : Token :=
  match spellings.lookup (String.ofList (word.toList.take 2)) with
  | some kind => .option kind true (some (word.toList.drop 2))
  | none => otherToken word

/-- Takes a word in front of the mark by itself. -/
def Token.ofText (word : String) : Except UsageError Token :=
  match word.toList with
  | '-' :: second :: _ =>
      let long := second = '-'
      match spellings.lookup word with
      | some kind => .ok (.option kind (!long) none)
      | none =>
          let (start, attached) := splitAtEquals word.toList
          match attached, spellings.lookup (String.ofList start) with
          | some joined, some kind => .ok (.option kind (!long) (some joined))
          | _, _ => if long then longToken word else .ok (shortToken word)
  | _ => .ok (.argument word)

def Token.ofTexts : List String → Except UsageError (List Token)
  | [] => .ok []
  | "--" :: rest => .ok (.mark :: rest.map Token.argument)
  | word :: rest => do
      let first ← Token.ofText word
      return first :: (← Token.ofTexts rest)

def joinedFlags (flag : Flag) : List Char → Except UsageError (List Flag)
  | [] => .ok [flag]
  | c :: rest =>
      match spellings.lookup (String.ofList ['-', c]) with
      | some (.flag next) => (joinedFlags next rest).map (flag :: ·)
      | _ => .error (.ignoredArgument (.flag flag) (String.ofList (c :: rest)))

def flagsOf (flag : Flag) (short : Bool) (attached : Option (List Char)) :
    Except UsageError (List Flag) :=
  match attached with
  | none => .ok [flag]
  | some argument =>
      if short && !argument.isEmpty then joinedFlags flag argument
      else .error (.ignoredArgument (.flag flag) (String.ofList argument))

/-- How far the words in place of the path are consumed. -/
inductive PathPlace where
  /-- No such word has been met. -/
  | ahead
  /-- The mark has been met, and the path may follow it. -/
  | afterMark
  /-- The path has been met, and the mark may follow it. -/
  | afterPath
  /-- No further word belongs to the path. -/
  | closed
  deriving DecidableEq, Repr

structure Consumed where
  options : Options := {}
  place : PathPlace := .ahead
  extras : List String := []
  deriving DecidableEq, Repr

inductive Request where
  | help
  | refuse (error : UsageError)
  | start (options : Options)
  deriving DecidableEq, Repr

namespace Consumed

/-- An option closes the place of the path if that has been entered. -/
def passOption (consumed : Consumed) : Consumed :=
  { consumed with place := if consumed.place = .ahead then .ahead else .closed }

def addExtra (consumed : Consumed) (word : String) : Consumed :=
  { consumed with place := .closed, extras := consumed.extras ++ [word] }

def takeArgument (consumed : Consumed) (word : String) : Consumed :=
  match consumed.place with
  | .ahead | .afterMark =>
      { consumed with options := { consumed.options with path := some word }, place := .afterPath }
  | .afterPath | .closed => consumed.addExtra word

def takeMark (consumed : Consumed) : Consumed :=
  match consumed.place with
  | .ahead => { consumed with place := .afterMark }
  | .afterPath => { consumed with place := .closed }
  | .afterMark | .closed => consumed.addExtra "--"

/-- Sets flags up to the first call for help. -/
def setFlags (consumed : Consumed) : List Flag → Option Consumed
  | [] => some consumed
  | .help :: _ => none
  | .trace :: rest =>
      { consumed with options := { consumed.options with trace := true } }.setFlags rest
  | .listing :: rest =>
      { consumed with options := { consumed.options with listing := true } }.setFlags rest
  | .verbose :: rest =>
      { consumed with options := { consumed.options with verbose := true } }.setFlags rest

/-- Takes over a cycle limit. The mark is no argument, so a limit that is the mark is blank. -/
def setLimit (consumed : Consumed) (argument : String) : Except UsageError Consumed :=
  let set (limit : Limit) :=
    { consumed with options := { consumed.options with limit := some limit } }
  if argument = "--" then .ok (set .blank)
  else
    match Text.integer? argument.toList with
    | some limit => .ok (set (.cycles limit))
    | none => .error (.badInteger .maxCycles argument)

/-- Consumes words from left to right. Words that have no place are noticed only at the end. -/
def consume (consumed : Consumed) : List Token → Request
  | [] =>
      if consumed.extras.isEmpty then .start consumed.options
      else .refuse (.unrecognized consumed.extras)
  | .argument word :: rest => (consumed.takeArgument word).consume rest
  | .mark :: rest => consumed.takeMark.consume rest
  | .unknown word :: rest =>
      { consumed.passOption with extras := consumed.extras ++ [word] }.consume rest
  | .option (.flag flag) short attached :: rest =>
      match flagsOf flag short attached with
      | .error error => .refuse error
      | .ok flags =>
          match consumed.passOption.setFlags flags with
          | none => .help
          | some consumed => consumed.consume rest
  | .option .maxCycles _ (some argument) :: rest =>
      match consumed.passOption.setLimit (String.ofList argument) with
      | .error error => .refuse error
      | .ok consumed => consumed.consume rest
  | .option .maxCycles _ none :: .argument argument :: rest =>
      match consumed.passOption.setLimit argument with
      | .error error => .refuse error
      | .ok consumed => consumed.consume rest
  | .option .maxCycles _ none :: _ => .refuse (.missingArgument .maxCycles)

end Consumed

def Request.ofTexts (words : List String) : Request :=
  match Token.ofTexts words with
  | .error error => .refuse error
  | .ok words => ({} : Consumed).consume words

end RegisterMachine.CommandLine
