import Lookahead.Grammar.Rows
import Lookahead.Machine.Sets
import Lookahead.Recovery.Point

/-!
# Streams and tables on the machine

A cursor as a stream and a place in it. The tokens that were skipped are the difference of two
places, and a row is fetched by its place in its table.
-/

namespace Lookahead.Machine

structure Reader where
  tokens : Slice Token
  place : Nat
  deriving DecidableEq, Repr

namespace Reader

/-- Past the end of the stream there is `endOfFile`. -/
def current (r : Reader) : Token := r.tokens.val[r.place]?.getD .endOfFile

def advance (r : Reader) : Checked (Token × Reader) := do
  if r.current = .endOfFile then
    return (.endOfFile, r)
  return (r.current, ⟨r.tokens, ← fit 64 (r.place + 1)⟩)

/-- Skips to a token of the set or to the end. The answer has the tokens skipped since the start. -/
def skip (recovery : Stored) (start : Nat) (r : Reader) : Checked (Bool × Nat × Reader) :=
  if h : r.current = .endOfFile then do
    return (false, ← difference r.place start, r)
  else do
    if ← recovery.contains r.current then
      return (true, ← difference r.place start, r)
    let _ ← fit 64 (r.place + 1)
    skip recovery start ⟨r.tokens, r.place + 1⟩
termination_by r.tokens.val.length - r.place
decreasing_by
  have hlt : r.place < r.tokens.val.length :=
    Nat.lt_of_not_le fun hle => h (by simp [current, List.getElem?_eq_none hle])
  omega

def synchronize (recovery : Stored) (r : Reader) : Checked (Bool × Nat × Reader) :=
  skip recovery r.place r

end Reader

def lookup (table : Table) (p : Production) (d : Dialect) : Checked TokenSet := do
  if table.usesAlternate p d.variantRecords then
    fetch table.rows (← fit 64 (p.ordinal + Production.alternateOffset))
  else fetch table.rows p.ordinal

/-- The rows behind the canonical ones. -/
def alternateRows (table : Table) : Checked (List TokenSet) :=
  fetchFrom table.rows Production.count

def resync (point : ResyncPoint) : Checked TokenSet :=
  fetch (ResyncPoint.all.map ResyncPoint.resync) point.ordinal

end Lookahead.Machine
