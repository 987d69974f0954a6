import Lookahead.TokenSet.Basic
import Lookahead.Trace.Traced

/-!
# A cursor over a token stream

A scanner ends its stream with `endOfFile`. Past the last token of a stream
that was not ended the cursor sees `endOfFile` as well, and it never moves on
from there.
-/

namespace Lookahead

structure Cursor where
  position : Nat
  /-- The stream from the lookahead token on. -/
  rest : List Token
  deriving DecidableEq, Repr

namespace Cursor

def ofTokens (ts : List Token) : Cursor := ⟨0, ts⟩

/-- The lookahead token. -/
def current (c : Cursor) : Token := c.rest.headD .endOfFile

def isAtEnd (c : Cursor) : Bool := c.current == .endOfFile

def isAt (c : Cursor) (s : TokenSet) : Bool := s.contains c.current

/-- Consumes the lookahead token, unless that is the end. -/
def advance (c : Cursor) : Traced (Token × Cursor) :=
  match c with
  | ⟨_, []⟩ => return (.endOfFile, c)
  | ⟨position, t :: rest⟩ =>
    if t = .endOfFile then return (.endOfFile, c)
    else do
      Traced.emit (.advance position t)
      return (t, ⟨position + 1, rest⟩)

def advanceBy : Nat → Cursor → Traced Cursor
  | 0, c => return c
  | n + 1, c => do
    let (_, c) ← c.advance
    advanceBy n c

end Cursor

end Lookahead
