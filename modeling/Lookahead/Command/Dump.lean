import Lookahead.Command.Error
import Lookahead.Grammar.Rows
import Lookahead.Recovery.Point
import Lookahead.TokenSet.Row

/-!
# Dumping a table

The rows of a table as they stand in its file, each below a line with its name.
-/

namespace Lookahead

inductive DumpTarget where
  | grammar (table : Table)
  | resync
  deriving DecidableEq, Repr

def DumpTarget.ofName : String → Except CommandError DumpTarget
  | "first" => .ok (.grammar .first)
  | "follow" => .ok (.grammar .follow)
  | "resync" => .ok .resync
  | name => .error (.unknownTable name)

def labelledRow (label : String) (s : TokenSet) : String :=
  "// " ++ label ++ "\n" ++ s.rowText ++ "\n"

def dump : DumpTarget → String
  | .grammar table =>
    "// --- canonical rows ---\n" ++
      String.join (Production.all.map fun p => labelledRow p.name (table.canonical p)) ++
      "// --- alternate rows ---\n" ++
      String.join (Table.alternated.map fun p => labelledRow p.name (table.alternate p))
  | .resync => String.join (ResyncPoint.all.map fun p => labelledRow p.name p.resync)

end Lookahead
