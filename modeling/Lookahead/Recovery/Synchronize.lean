import Lookahead.Cursor.Basic

/-!
# Resynchronizing

After a syntax error the parser skips to the first token of a recovery set.
The end of the stream stops the skipping and is never a success, also when the
recovery set holds `endOfFile`.
-/

namespace Lookahead.Cursor

def stopsAt (recovery : TokenSet) (t : Token) : Bool := t == .endOfFile || recovery.contains t

/-- The number of tokens before the first at which skipping stops. -/
def distance (c : Cursor) (recovery : TokenSet) : Nat :=
  (c.rest.takeWhile (!stopsAt recovery ·)).length

/-- Skips to the recovery set, and says whether a token of it was found. -/
def synchronize (c : Cursor) (recovery : TokenSet) : Traced (Bool × Cursor) := do
  let reached ← c.advanceBy (c.distance recovery)
  let skipped := reached.position - c.position
  if reached.isAtEnd then
    Traced.emit (.reachedEnd skipped)
    return (false, reached)
  else
    Traced.emit (.resynchronized skipped reached.current)
    return (true, reached)

end Lookahead.Cursor
