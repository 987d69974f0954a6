/-!
# Dialects

What the front end fixes about the language before parsing starts. The grammar
tables depend on `variantRecords` only: they accept `CONST` parameters in every
dialect, and leave it to later checks to refuse them.
-/

namespace Lookahead

structure Dialect where
  /-- Formal parameters may carry `CONST`. -/
  constParameters : Bool
  /-- Records have variant parts, where they would otherwise be extensible. -/
  variantRecords : Bool
  deriving DecidableEq, Repr

end Lookahead
