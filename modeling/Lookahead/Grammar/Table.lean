import Lookahead.Dialect.Basic
import Lookahead.Production

/-!
# Choosing a row

Each of the two grammar tables has a canonical row for every rule and, after
those, an alternate row for every rule that depends on an option.

A rule on `CONST` parameters always takes its alternate row, so that the tables
accept the attribute. For a rule on variant records the tables differ: canonical
FIRST rows describe extensible records, canonical FOLLOW rows variant records.
-/

namespace Lookahead

inductive Table where
  | first | follow
  deriving DecidableEq, Repr, Inhabited

namespace Table

def name : Table → String
  | .first => "FIRST"
  | .follow => "FOLLOW"

def usesAlternate (table : Table) (p : Production) (variantRecords : Bool) : Bool :=
  match p.dependency, table with
  | .independent, _ => false
  | .constParameters, _ => true
  | .variantRecords, .first => variantRecords
  | .variantRecords, .follow => !variantRecords

def rowCount : Nat := Production.count + Production.alternateOffset

def rowIndex (table : Table) (p : Production) (d : Dialect) : Nat :=
  if table.usesAlternate p d.variantRecords then p.ordinal + Production.alternateOffset
  else p.ordinal

end Table

end Lookahead
