/-!
# Columns

Texts set to the left or to the right of a column. A text that is wider than
its column is not cut.
-/

namespace Lookahead.Text

def alignLeft (width : Nat) (s : String) : String := String.ofList (s.toList.rightpad width ' ')

def alignRight (width : Nat) (s : String) : String := String.ofList (s.toList.leftpad width ' ')

end Lookahead.Text
