import Lookahead.Grammar.Rows
import Lookahead.Recovery.Point
import Lookahead.Trace.Traced

/-!
# Looking up a set

Every lookup in a table is reported with the row it used. A `Grammar` is the
tables bound to the dialect of one parsing session.
-/

namespace Lookahead

def Table.lookup (table : Table) (p : Production) (d : Dialect) : Traced TokenSet := do
  let row := table.rowIndex p d
  Traced.emit (.lookup table p row (row != p.ordinal))
  return table.select p d

/-- The tokens that can begin the rule. -/
def first (p : Production) (d : Dialect) : Traced TokenSet := Table.first.lookup p d

/-- The tokens that can stand right after the rule. -/
def follow (p : Production) (d : Dialect) : Traced TokenSet := Table.follow.lookup p d

structure Grammar where
  dialect : Dialect
  deriving DecidableEq, Repr

namespace Grammar

def first (g : Grammar) (p : Production) : Traced TokenSet := Lookahead.first p g.dialect

def follow (g : Grammar) (p : Production) : Traced TokenSet := Lookahead.follow p g.dialect

def lookup (g : Grammar) : Table → Production → Traced TokenSet
  | .first => g.first
  | .follow => g.follow

def resync (_ : Grammar) (point : ResyncPoint) : TokenSet := point.resync

def count (_ : Grammar) : Nat := Production.count

inductive Query where
  | first (p : Production)
  | follow (p : Production)
  | resync (point : ResyncPoint)
  | count
  | dialect
  deriving DecidableEq, Repr

inductive Answer where
  | set (s : TokenSet)
  | number (n : Nat)
  | dialect (d : Dialect)
  deriving DecidableEq, Repr

def answer (g : Grammar) : Query → Traced Answer
  | .first p => .set <$> g.first p
  | .follow p => .set <$> g.follow p
  | .resync point => pure (.set (g.resync point))
  | .count => pure (.number g.count)
  | .dialect => pure (.dialect g.dialect)

end Grammar

end Lookahead
