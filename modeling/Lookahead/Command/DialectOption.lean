import Lookahead.Command.Error
import Lookahead.Dialect.Flags
import Lookahead.Trace.Traced

/-!
# Dialect options

The options of a command that set the dialect, on top of classic Modula-2. A
later option overrides an earlier one for the same switch.
-/

namespace Lookahead

structure DialectOption where
  switch : DialectFlags
  enabled : Bool
  deriving DecidableEq, Repr

namespace DialectOption

def ofArgument? : String → Option DialectOption
  | "--variant-records" => some ⟨.variantRecords, true⟩
  | "--no-variant-records" => some ⟨.variantRecords, false⟩
  | "--const-parameters" => some ⟨.constParameters, true⟩
  | "--no-const-parameters" => some ⟨.constParameters, false⟩
  | _ => none

def apply (o : DialectOption) (flags : DialectFlags) : DialectFlags :=
  if o.enabled then flags.insert o.switch else flags.remove o.switch

end DialectOption

/-- The arguments as options, unless one of them is none. -/
def readOptions : List String → Except CommandError (List DialectOption)
  | [] => .ok []
  | argument :: rest =>
    match DialectOption.ofArgument? argument with
    | none => .error (.unknownOption argument)
    | some o => (readOptions rest).map (o :: ·)

/-- The switches that the arguments leave on, reported once they are all read. -/
def dialectFlags (arguments : List String) : Attempt CommandError DialectFlags := do
  let options ← MonadExcept.ofExcept (readOptions arguments)
  let flags := options.foldl (fun flags o => o.apply flags) DialectFlags.pim
  Traced.emit (.dialect flags.enabledNames)
  return flags

end Lookahead
