import Lookahead.Machine.Basic
import Lookahead.TokenSet.Literal

/-!
# Sets on the machine

A set as it is stored, three words and the number of its elements, and its operations word by word.
Each goes through the segments in a loop, or finds the segment of an ordinal and the bit in it.
-/

namespace Lookahead.Machine

open TokenSet (segmentBits segmentCount capacity literalLength segmentOf segmentWord? countWord?)

structure Stored where
  segments : List Word
  count : Nat
  deriving DecidableEq, Repr

/-- The segments of all bits of a set. -/
def cells (bits : BitVec capacity) : List Word := (List.range segmentCount).map (segmentOf bits)

def stored (s : TokenSet) : Stored := ⟨cells s.bits, s.count⟩

def noBits : List Word := List.replicate segmentCount 0

def popcount (segments : List Word) : Checked Nat :=
  loop segmentCount (fun k count => do fit 32 (count + (← fetch segments k).cpop.toNat)) 0 0

/-- Sets the bit of an ordinal. -/
def mark (segments : List Word) (n : Nat) : Checked (List Word) := do
  let word ← fetch segments (n / segmentBits)
  let bit ← bitAt (n % segmentBits)
  store segments (n / segmentBits) (word ||| bit)

/-- The segments with the bits that an element may have, marked one after the other. -/
def validMask : Checked (List Word) :=
  loop (Token.maxOrdinal + 1) (fun n segments => mark segments n) Token.minElement noBits

/-- The entry of an alphabet at an ordinal, if it has so many. -/
def entry (all : List α) (count n : Nat) : Checked (Option α) := do
  if count ≤ n then
    return none
  return some (← fetch all n)

namespace Stored

-- ---------------------------------------------------------------------------
-- Building sets
-- ---------------------------------------------------------------------------

def ofSegments (segments : List Word) : Checked Stored := do
  return ⟨segments, ← popcount segments⟩

def ofTokens (ts : Slice Token) : Checked Stored := do
  let body (i : Nat) (segments : List Word) : Checked (List Word) := do
    let t ← fetch ts.val i
    if Token.minElement ≤ t.ordinal then mark segments t.ordinal else return segments
  ofSegments (← loop ts.val.length body 0 noBits)

def markAll (segments : List Word) : List Word → Checked (Except TokenSetError (List Word))
  | [] => return .ok segments
  | n :: ns =>
    if n.toNat < Token.minElement ∨ Token.maxOrdinal < n.toNat then
      return .error (.ordinalOutOfRange n.toNat Token.maxOrdinal)
    else do markAll (← mark segments n.toNat) ns

def ofOrdinals (ns : List Word) : Checked (Except TokenSetError Stored) := do
  match ← markAll noBits ns with
  | .error e => return .error e
  | .ok segments => return .ok (← ofSegments segments)

/-- The first segment with a bit that no element has, and those bits. -/
def stray (segments : List Word) : Checked (Option (Nat × Word)) :=
  let ask (k : Nat) : Checked (Option (Nat × Word)) := do
    let bits := (← fetch segments k) &&& ~~~(← fetch (← validMask) k)
    return if bits ≠ 0 then some (k, bits) else none
  search segmentCount ask 0

def ofWords (raw : List Word) : Checked (Except TokenSetError Stored) := do
  if raw.length ≠ literalLength then
    return .error (.segmentCount segmentCount (raw.length - 1))
  let declared ← fetch raw segmentCount
  if capacity < declared.toNat then
    return .error (.counterOverflow declared.toNat capacity)
  let copy (k : Nat) (segments : List Word) : Checked (List Word) := do
    store segments k (← fetch raw k)
  let segments ← loop segmentCount copy 0 noBits
  let actual ← popcount segments
  if actual ≠ declared.toNat then
    return .error (.countMismatch declared.toNat actual)
  match ← stray segments with
  | some (segment, bits) => return .error (.strayBits segment bits)
  | none => return .ok ⟨segments, actual⟩

/-- The one operation that is a fault by design, where the words are refused. -/
def literal (raw : List Word) : Checked Stored := do
  match ← ofWords raw with
  | .ok s => return s
  | .error _ => throw (.defect .malformedLiteral)

/-- Puts the words of a text in their places, the first at the position. -/
def readInto (raw : List Word) (position : Nat) :
    List (List Char) → Checked (Except TokenSetError (List Word))
  | [] => return .ok raw
  | cs :: rest =>
    match if position < segmentCount then segmentWord? cs else countWord? cs with
    | none => return .error (.malformedWord position)
    | some w => do readInto (← store raw position w) (position + 1) rest

def parse (text : String) : Checked (Except TokenSetError Stored) := do
  let words := TokenSet.splitWords text.toList
  if words.length ≠ literalLength then
    return .error (.segmentCount segmentCount (words.length - 1))
  match ← readInto (List.replicate literalLength 0) 0 words with
  | .error e => return .error e
  | .ok raw => ofWords raw

-- ---------------------------------------------------------------------------
-- Asking and uniting
-- ---------------------------------------------------------------------------

def hasOrdinal (s : Stored) (n : Word) : Checked Bool := do
  if n.toNat < Token.minElement ∨ Token.maxOrdinal < n.toNat then
    return false
  let word ← fetch s.segments (n.toNat / segmentBits)
  let bit ← bitAt (n.toNat % segmentBits)
  return word &&& bit ≠ 0

def contains (s : Stored) (t : Token) : Checked Bool := s.hasOrdinal (BitVec.ofNat 32 t.ordinal)

def isSubset (a b : Stored) : Checked Bool := do
  let ask (k : Nat) : Checked (Option Bool) := do
    let mine ← fetch a.segments k
    return if ((← fetch b.segments k) &&& mine) ^^^ mine ≠ 0 then some false else none
  return (← search segmentCount ask 0).getD true

def isDisjoint (a b : Stored) : Checked Bool := do
  let ask (k : Nat) : Checked (Option Bool) := do
    return if (← fetch a.segments k) &&& (← fetch b.segments k) ≠ 0 then some false else none
  return (← search segmentCount ask 0).getD true

def union (a b : Stored) : Checked Stored := do
  let body (k : Nat) (segments : List Word) : Checked (List Word) := do
    store segments k ((← fetch a.segments k) ||| (← fetch b.segments k))
  ofSegments (← loop segmentCount body 0 noBits)

def unionOf : List Stored → Checked (Except TokenSetError Stored)
  | [] => return .error .emptyUnion
  | s :: rest => do return .ok (← rest.foldlM union s)

end Stored

-- ---------------------------------------------------------------------------
-- Walking
-- ---------------------------------------------------------------------------

/-- An iterator, the segments of the bits still to come and the first that may have one. -/
structure Walker where
  segments : List Word
  segment : Nat
  deriving DecidableEq, Repr

def Stored.walk (s : Stored) : Walker := ⟨s.segments, 0⟩

namespace Walker

/-- Takes the lowest bit off and gives the ordinal it stands for. -/
def pop (w : Walker) : Checked (Option Nat × Walker) :=
  if w.segment < segmentCount then do
    let bits ← fetch w.segments w.segment
    if bits = 0 then
      let _ ← fit 64 (w.segment + 1)
      pop ⟨w.segments, w.segment + 1⟩
    else
      let segments ← store w.segments w.segment (bits &&& (← predecessor bits))
      let n ← fit 64 (w.segment * segmentBits + bits.ctz.toNat)
      return (some n, ⟨segments, w.segment⟩)
  else return (none, w)
termination_by segmentCount - w.segment

/-- An ordinal that no token has, or that is no byte, would be an end before the last member. -/
def next (w : Walker) : Checked (Option Token × Walker) := do
  match ← w.pop with
  | (none, w) => return (none, w)
  | (some n, w) => if n < 256 then return (← entry Token.all Token.count n, w) else return (none, w)

def remaining (w : Walker) : Checked Nat := popcount w.segments

/-- The answers to so many steps, and the iterator after them. -/
def steps : Nat → Walker → Checked (List (Option Token) × Walker)
  | 0, w => return ([], w)
  | n + 1, w => do
    let (t, w) ← w.next
    let (ts, w) ← w.steps n
    return (t :: ts, w)

end Walker

end Lookahead.Machine
