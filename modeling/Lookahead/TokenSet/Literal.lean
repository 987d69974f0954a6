import Lookahead.Text.Blank
import Lookahead.TokenSet.Basic
import Lookahead.Trace.Traced

/-!
# The literal text of a set

A set is written as its three segments, eight lower-case hexadecimal digits
each, and the element count in decimal:

    0x10801048, 0x00000050, 0x00000000, 7

Reading allows blanks around every word, commas at the end, an upper-case `0X`,
capital digits, a `+` before the digits and any number of leading zeros. What
the words say is then up to `ofWords`.
-/

namespace Lookahead.TokenSet

def literalText (s : TokenSet) : String :=
  String.ofList ((s.segments.map fun w => Text.hex w ++ [',', ' ']).flatten ++ Text.decimal s.count)

instance : ToString TokenSet := ⟨literalText⟩

/-- The words between the commas. Commas that end the text are dropped, once. -/
def splitWords (cs : List Char) : List (List Char) :=
  ((Text.dropEndWhile (· == ',') (Text.trim cs)).splitOn ',').map Text.trim

def segmentWord? : List Char → Option Word
  | '0' :: 'x' :: ds | '0' :: 'X' :: ds => Text.word? 32 16 ds
  | _ => none

def countWord? (cs : List Char) : Option Word := Text.word? 32 10 cs

/-- Reads the words from a position on. The first that is malformed is refused. -/
def readWords (position : Nat) : List (List Char) → Except TokenSetError (List Word)
  | [] => .ok []
  | cs :: rest =>
    match if position < segmentCount then segmentWord? cs else countWord? cs with
    | none => .error (.malformedWord position)
    | some w => (readWords (position + 1) rest).map (w :: ·)

/-- Reads a literal text. A wrong number of words, and words that do not fit
together, are reported; a malformed word is not. -/
def parse (text : String) : Attempt TokenSetError TokenSet :=
  let words := splitWords text.toList
  if words.length ≠ literalLength then do
    Traced.emit (.wrongWordCount words.length text)
    throw (.segmentCount segmentCount (words.length - 1))
  else
    match readWords 0 words with
    | .error e => throw e
    | .ok raw =>
      match ofWords raw with
      | .ok s => return s
      | .error e => do
        Traced.emit (.refusedWords e text)
        throw e

end Lookahead.TokenSet
