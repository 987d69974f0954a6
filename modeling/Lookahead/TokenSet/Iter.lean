import Lookahead.TokenSet.Basic

/-!
# Walking through a set

An iterator keeps the bits of the members still to come. A step yields the
token of the lowest bit and clears that bit; the set itself is not touched.
-/

namespace Lookahead.TokenSet

structure Iter where
  rest : BitVec capacity
  deriving DecidableEq, Repr

def iter (s : TokenSet) : Iter := ⟨s.bits⟩

namespace Iter

/-- The number of members still to come. -/
def remaining (it : Iter) : Nat := it.rest.cpop.toNat

def next (it : Iter) : Option Token × Iter :=
  if it.rest = 0 then (none, it)
  else (Token.ofOrdinal? it.rest.ctz.toNat, ⟨it.rest &&& (it.rest - 1)⟩)

/-- Passes over so many members and yields the one after them. -/
def nth : Nat → Iter → Option Token × Iter
  | 0, it => it.next
  | n + 1, it =>
    match it.next with
    | (none, it) => (none, it)
    | (some _, it) => nth n it

/-- Up to so many members. -/
def take : Nat → Iter → List Token × Iter
  | 0, it => ([], it)
  | n + 1, it =>
    match it.next with
    | (none, it) => ([], it)
    | (some t, it) =>
      let (ts, it) := take n it
      (t :: ts, it)

def drain (it : Iter) : List Token × Iter := it.take it.remaining

inductive Step where
  | next
  | nth (n : Nat)
  | hint
  | drain
  deriving DecidableEq, Repr

inductive Answer where
  | member (t : Option Token)
  | bounds (low high : Nat)
  | members (ts : List Token)
  deriving DecidableEq, Repr

def step (it : Iter) : Step → Answer × Iter
  | .next => let (t, it) := it.next; (.member t, it)
  | .nth n => let (t, it) := it.nth n; (.member t, it)
  | .hint => (.bounds it.remaining it.remaining, it)
  | .drain => let (ts, it) := it.drain; (.members ts, it)

/-- The answers to a run of steps, and the iterator after each. -/
def run (it : Iter) : List Step → List (Answer × Iter)
  | [] => []
  | step :: steps =>
    let (answer, it) := it.step step
    (answer, it) :: it.run steps

end Iter

end Lookahead.TokenSet
