import Lookahead.TokenSet.Literal

/-!
# Rows of a table file

In the file of a table a set stands on a line of its own, as
`token_set![0x00000100, 0x00000000, 0x00000000, 1],`. The brackets can be taken
off again; a text without them is left as it is, but for blanks around it and
commas at its end.
-/

namespace Lookahead.TokenSet

def rowOpening : List Char := "token_set![".toList

def rowClosing : List Char := [']']

def rowText (s : TokenSet) : String :=
  String.ofList rowOpening ++ s.literalText ++ String.ofList rowClosing ++ ","

/-- What stands between the brackets of a row, or the whole text if it is no row. -/
def unwrapRow (cs : List Char) : List Char :=
  let row := Text.dropEndWhile (· == ',') (Text.trim cs)
  ((rowOpening.isPrefixOf? row).bind rowClosing.isSuffixOf?).getD row

end Lookahead.TokenSet
