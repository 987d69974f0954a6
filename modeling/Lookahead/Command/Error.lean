import Lookahead.TokenSet.Error

/-!
# Refused commands
-/

namespace Lookahead

inductive CommandError where
  | literal (error : TokenSetError)
  | unknownProduction (name : String)
  | unknownTable (name : String)
  | unknownOption (argument : String)
  deriving DecidableEq, Repr

def CommandError.message : CommandError → String
  | .literal error => "invalid token set literal: " ++ error.message
  | .unknownProduction name =>
    "unknown production `" ++ name ++ "` (run `m2c productions` for the list)"
  | .unknownTable name => "unknown table `" ++ name ++ "`; expected `first`, `follow`, or `resync`"
  | .unknownOption argument => "unknown option `" ++ argument ++ "`"

end Lookahead
