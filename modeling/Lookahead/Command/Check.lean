import Lookahead.Command.Error
import Lookahead.TokenSet.Listing
import Lookahead.TokenSet.Row

/-!
# Checking a literal

`check` reads the literal of a set, bare or as the row of a table file, and
lists what the set holds.
-/

namespace Lookahead

def check (text : String) : Attempt CommandError String := do
  let words := String.ofList (TokenSet.unwrapRow text.toList)
  let s ← (TokenSet.parse words).adapt .literal
  return toString s.count ++ " elements: " ++ s.expected ++ "\n"

end Lookahead
