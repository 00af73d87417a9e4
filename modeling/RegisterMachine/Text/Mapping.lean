/-!
# Mappings as text

Pairs of a key and a value between braces.
-/

namespace RegisterMachine.Text

/-- The mapping on one line; keys and values are already text. -/
def mapping (entries : List (String × String)) : String :=
  let pairs := entries.map fun (key, value) => key ++ ": " ++ value
  "\x7b" ++ ", ".intercalate pairs ++ "\x7d"

end RegisterMachine.Text
