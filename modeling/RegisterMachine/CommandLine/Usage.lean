import RegisterMachine.CommandLine.Options

/-!
# Usage texts
-/

namespace RegisterMachine.CommandLine

def usageText : String :=
  "usage: aqa-vm [-h] [--max-cycles MAX_CYCLES] [--trace] [--listing] [--verbose]\n" ++
    "              [path]\n"

/-- The answer to a call for help, without its last line break. -/
def helpText : String :=
  "\n".intercalate
    ["usage: aqa-vm [-h] [--max-cycles MAX_CYCLES] [--trace] [--listing] [--verbose]",
      "              [path]",
      "",
      "AQA Assembly Language Environment",
      "",
      "positional arguments:",
      "  path                  Path to a .assembly program. Omit for interactive",
      "                        mode.",
      "",
      "options:",
      "  -h, --help            show this help message and exit",
      "  --max-cycles MAX_CYCLES",
      "                        Abort a run after this many instructions. Default: no",
      "                        limit",
      "  --trace, -t           Print full execution trace after each run",
      "  --listing, -l         Print parsed instructions and labels before each run",
      "  --verbose, -v         Enable debug logging",
      "",
      "Examples:",
      "    # Run a program once",
      "    aqa-vm programs/sum_1_to_10.assembly",
      "",
      "    # Show the parsed listing and a full execution trace",
      "    aqa-vm programs/multiply.assembly --listing --trace",
      "",
      "    # Interactive mode: prompts for script paths until EXIT",
      "    aqa-vm",
      "        "]

def refusalText (error : UsageError) : String :=
  usageText ++ s!"aqa-vm: error: {error.message}\n"

end RegisterMachine.CommandLine
