import Lookahead.Grammar.Table
import Lookahead.Token
import Lookahead.TokenSet.Error

/-!
# Events

What the library reports about its own work, for a log.
-/

namespace Lookahead

inductive Event where
  | lookup (table : Table) (production : Production) (row : Nat) (alternate : Bool)
  | advance (position : Nat) (token : Token)
  | resynchronized (skipped : Nat) (token : Token)
  | reachedEnd (skipped : Nat)
  | wrongWordCount (words : Nat) (literal : String)
  | refusedWords (error : TokenSetError) (literal : String)
  | dialect (names : List String)
  deriving DecidableEq, Repr

namespace Event

inductive Level where
  | trace | debug
  deriving DecidableEq, Repr

def Level.name : Level → String
  | .trace => "TRACE"
  | .debug => "DEBUG"

inductive Value where
  | number (n : Nat)
  | flag (b : Bool)
  | text (s : String)
  deriving DecidableEq, Repr

def level : Event → Level
  | .lookup .. | .advance .. => .trace
  | _ => .debug

def message : Event → String
  | .lookup .. => "grammar lookup"
  | .advance .. => "advance"
  | .resynchronized .. => "resynchronized"
  | .reachedEnd .. => "resync reached end of file"
  | .wrongWordCount .. | .refusedWords .. => "rejected token set literal"
  | .dialect .. => "dialect flags"

def listText (names : List String) : String :=
  "[" ++ ", ".intercalate (names.map fun name => "\"" ++ name ++ "\"") ++ "]"

/-- The named values that go with the message. -/
def fields : Event → List (String × Value)
  | .lookup table production row alternate =>
    [("table", .text table.name), ("production", .text production.name), ("row", .number row),
     ("alternate", .flag alternate)]
  | .advance position token => [("pos", .number position), ("token", .text token.name)]
  | .resynchronized skipped token => [("skipped", .number skipped), ("at", .text token.name)]
  | .reachedEnd skipped => [("skipped", .number skipped)]
  | .wrongWordCount words literal => [("words", .number words), ("literal", .text literal)]
  | .refusedWords error literal => [("error", .text error.message), ("literal", .text literal)]
  | .dialect names => [("dialect", .text (listText names))]

end Event

end Lookahead
