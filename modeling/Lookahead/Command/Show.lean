import Lookahead.Command.Error
import Lookahead.Dialect.Flags
import Lookahead.Grammar.Lookup
import Lookahead.Text.Column
import Lookahead.TokenSet.Listing

/-!
# Showing rules

`showProduction` prints the sets of one rule in a dialect, `listProductions`
every rule with the option that its sets depend on.
-/

namespace Lookahead

def readProduction (name : String) : Except CommandError Production :=
  match Production.ofName? name with
  | some p => .ok p
  | none => .error (.unknownProduction name)

def setLine (table : Table) (row : Nat) (s : TokenSet) : String :=
  "  " ++ Text.alignLeft 6 table.name ++ " row " ++ Text.alignRight 2 (toString row) ++ ": \x7b" ++
    ", ".intercalate s.names ++ "\x7d (" ++ toString s.count ++ " elements)\n"

def dialectPhrase : List String → String
  | [] => "none"
  | names => ", ".intercalate names

def showProduction (p : Production) (flags : DialectFlags) : Traced String := do
  let first ← first p flags.dialect
  let follow ← follow p flags.dialect
  return p.name ++ " (" ++ p.dependency.name ++ "; dialect: " ++
    dialectPhrase flags.enabledNames ++ ")\n" ++
    setLine .first (Table.first.rowIndex p flags.dialect) first ++
    setLine .follow (Table.follow.rowIndex p flags.dialect) follow

def productionLine (p : Production) : String :=
  Text.alignRight 2 (toString p.ordinal) ++ "  " ++ Text.alignLeft 24 p.name ++ " " ++
    p.dependency.name ++ "\n"

def listProductions : String := String.join (Production.all.map productionLine)

end Lookahead
