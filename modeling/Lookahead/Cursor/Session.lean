import Lookahead.Recovery.Synchronize

/-!
# Cursor sessions

What a parser does with one stream: it moves its cursor, asks about it, and
saves the cursor to come back to it.
-/

namespace Lookahead.Cursor

inductive Step where
  | advance
  | current
  | position
  | atEnd
  | isAt (s : TokenSet)
  | synchronize (recovery : TokenSet)
  | save
  | restore
  deriving DecidableEq, Repr

inductive Answer where
  | token (t : Token)
  | position (n : Nat)
  | flag (b : Bool)
  /-- How many cursors are saved. -/
  | saved (n : Nat)
  | nothingSaved
  deriving DecidableEq, Repr

structure Session where
  cursor : Cursor
  saved : List Cursor
  deriving DecidableEq, Repr

namespace Session

def ofTokens (ts : List Token) : Session := ⟨Cursor.ofTokens ts, []⟩

/-- A restore takes the cursor saved last, and changes nothing if there is none. -/
def step (s : Session) : Step → Traced (Answer × Session)
  | .advance => do
    let (t, c) ← s.cursor.advance
    return (.token t, { s with cursor := c })
  | .current => return (.token s.cursor.current, s)
  | .position => return (.position s.cursor.position, s)
  | .atEnd => return (.flag s.cursor.isAtEnd, s)
  | .isAt set => return (.flag (s.cursor.isAt set), s)
  | .synchronize recovery => do
    let (found, c) ← s.cursor.synchronize recovery
    return (.flag found, { s with cursor := c })
  | .save => return (.saved (s.saved.length + 1), { s with saved := s.cursor :: s.saved })
  | .restore =>
    match s.saved with
    | [] => return (.nothingSaved, s)
    | c :: saved => return (.saved saved.length, ⟨c, saved⟩)

/-- The answers to a run of steps, and the session after each. -/
def run (s : Session) : List Step → Traced (List (Answer × Session))
  | [] => return []
  | step :: steps => do
    let (answer, s) ← s.step step
    return (answer, s) :: (← run s steps)

end Session

end Lookahead.Cursor
