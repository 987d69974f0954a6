import Lookahead.Text.Numeral

/-!
# Refusals of token sets

Each case describes words or a list that would give an inconsistent set. Such
data is refused, never repaired.
-/

namespace Lookahead

inductive TokenSetError where
  | segmentCount (expected found : Nat)
  | counterOverflow (declared capacity : Nat)
  | countMismatch (declared actual : Nat)
  | strayBits (segment : Nat) (bits : BitVec 32)
  | ordinalOutOfRange (ordinal max : Nat)
  | emptyUnion
  | malformedWord (position : Nat)
  deriving DecidableEq, Repr

def TokenSetError.message : TokenSetError → String
  | .segmentCount expected found =>
    "token set literal has " ++ toString found ++ " segment words, expected " ++ toString expected
  | .counterOverflow declared capacity =>
    "declared element count " ++ toString declared ++ " exceeds capacity " ++ toString capacity
  | .countMismatch declared actual =>
    "declared element count " ++ toString declared ++ " does not match the " ++ toString actual ++
      " bits set"
  | .strayBits segment bits =>
    "segment " ++ toString segment ++ " sets bits " ++ String.ofList (Text.hex bits) ++
      " outside the token alphabet"
  | .ordinalOutOfRange ordinal max =>
    "token ordinal " ++ toString ordinal ++ " is outside 1..=" ++ toString max
  | .emptyUnion => "union of an empty list of token sets"
  | .malformedWord position =>
    "word " ++ toString position ++ " of token set literal is malformed"

end Lookahead
