import Lookahead.Command.Line

/-!
# The program
-/

def main (arguments : List String) : IO UInt32 := do
  let outcome := Lookahead.CommandLine.run arguments
  (← IO.getStdout).putStr outcome.output
  (← IO.getStderr).putStr outcome.errors
  return outcome.status.toUInt32
