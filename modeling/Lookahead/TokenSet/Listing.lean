import Lookahead.TokenSet.Basic

/-!
# Lists of members

What a diagnostic says was expected, and the listing of a set by labels.
-/

namespace Lookahead.TokenSet

def names (s : TokenSet) : List String := s.toList.map Token.name

def quote (name : String) : String := "`" ++ name ++ "`"

/-- The alternatives as a phrase: nothing, one, one or the other, or a list with a final `or`. -/
def alternatives : List String → String
  | [] => "nothing"
  | [a] => quote a
  | [a, b] => quote a ++ " or " ++ quote b
  | names =>
    ", ".intercalate (names.dropLast.map quote) ++ ", or " ++ quote (names.getLast?.getD "")

def expected (s : TokenSet) : String := alternatives s.names

def listing (s : TokenSet) : String :=
  "\x7b" ++ ", ".intercalate (s.toList.map Token.label) ++ "\x7d"

end Lookahead.TokenSet
