/-!
# Layout

Small pieces of reports: ruled lines, columns and lines put together.
-/

namespace RegisterMachine.Text

def rule (c : Char) (width : Nat) : String :=
  String.ofList (List.replicate width c)

def alignRight (width : Nat) (text : String) : String :=
  String.ofList (List.replicate (width - text.length) ' ') ++ text

/-- Lines as one text, with no break after the last. -/
def joinLines (lines : List String) : String :=
  "\n".intercalate lines

end RegisterMachine.Text
