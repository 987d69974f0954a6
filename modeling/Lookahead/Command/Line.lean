import Lookahead.Command.Check
import Lookahead.Command.DialectOption
import Lookahead.Command.Dump
import Lookahead.Command.Show

/-!
# The command line

What the table tool answers to its arguments. A command that is refused prints
nothing but the reason, and ends with status 1.
-/

namespace Lookahead

structure Outcome where
  status : UInt8
  output : String
  errors : String
  deriving DecidableEq, Repr

namespace CommandLine

def lines (ls : List String) : String := String.join (ls.map (· ++ "\n"))

def usage : String := lines
  ["m2c - Modula-2 grammar table tooling",
   "",
   "Usage: m2c <command> [options]",
   "",
   "Commands:",
   "  dump <table>              Print first, follow, or resync rows as literals",
   "  show <production> [opts]  Show FIRST and FOLLOW for a production",
   "  check <literal>           Validate a token set literal",
   "  productions               List productions and their option dependency",
   "  help                      Show this message",
   "",
   "Set RUST_LOG (e.g. RUST_LOG=m2_parse=trace) for lookup tracing."]

def dumpUsage : String := lines ["Usage: m2c dump <first|follow|resync>"]

def showUsage : String := lines
  ["Usage: m2c show <production> [options]",
   "",
   "Options:",
   "  --variant-records        Records may have variant parts (default)",
   "  --no-variant-records     Records are extensible instead",
   "  --const-parameters       Formal parameters may be CONST",
   "  --no-const-parameters    Formal parameters may not be CONST (default)"]

def checkUsage : String := lines
  ["Usage: m2c check <literal>",
   "",
   "Example: m2c check \"0x00001000, 0x00000000, 0x00000008, 2\""]

def done (output : String) : Outcome := ⟨0, output, ""⟩

def refused (reason : String) : Outcome := ⟨1, "", reason⟩

def ofAnswer : Except CommandError String → Outcome
  | .ok text => done text
  | .error e => refused ("error: " ++ e.message ++ "\n")

/-- The rule is read before the options, so that of two faults it is the one reported. -/
def showAnswer (name : String) (arguments : List String) : Attempt CommandError String := do
  let p ← MonadExcept.ofExcept (readProduction name)
  let flags ← dialectFlags arguments
  showProduction p flags

def run : List String → Outcome
  | [] => done usage
  | ["dump"] => refused dumpUsage
  | "dump" :: target :: _ => ofAnswer ((DumpTarget.ofName target).map dump)
  | ["show"] => refused showUsage
  | "show" :: name :: arguments => ofAnswer (showAnswer name arguments).run.value
  | ["check"] => refused checkUsage
  | "check" :: words => ofAnswer (check (" ".intercalate words)).run.value
  | "productions" :: _ => done listProductions
  | "help" :: _ | "--help" :: _ | "-h" :: _ => done usage
  | command :: _ => ⟨1, usage, lines ["Unknown command: " ++ command, ""]⟩

end CommandLine

end Lookahead
