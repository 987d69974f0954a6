import Lookahead.Dialect.Basic
import Lookahead.Text.Numeral

/-!
# Dialect switches

The switches of the front end as one byte. Two bits are defined. The others may
be set as well and are then carried along, but no dialect depends on them.
-/

namespace Lookahead

structure DialectFlags where
  bits : BitVec 8
  deriving DecidableEq, Repr

namespace DialectFlags

def constParameters : DialectFlags := ⟨0b01⟩
def variantRecords : DialectFlags := ⟨0b10⟩

def defined : BitVec 8 := constParameters.bits ||| variantRecords.bits

/-- Classic Modula-2: variant records, no `CONST` parameters. -/
def pim : DialectFlags := variantRecords

instance : Inhabited DialectFlags := ⟨pim⟩

def isEmpty (f : DialectFlags) : Bool := f.bits == 0

def contains (f g : DialectFlags) : Bool := f.bits &&& g.bits == g.bits

def intersects (f g : DialectFlags) : Bool := f.bits &&& g.bits != 0

def includesAll (f : DialectFlags) : Bool := f.contains ⟨defined⟩

def insert (f g : DialectFlags) : DialectFlags := ⟨f.bits ||| g.bits⟩

def remove (f g : DialectFlags) : DialectFlags := ⟨f.bits &&& ~~~g.bits⟩

def dialect (f : DialectFlags) : Dialect where
  constParameters := f.contains constParameters
  variantRecords := f.contains variantRecords

-- ---------------------------------------------------------------------------
-- Edits
-- ---------------------------------------------------------------------------

inductive Edit where
  /-- Refused if the byte sets an undefined bit. -/
  | exactly (bits : BitVec 8)
  | truncate (bits : BitVec 8)
  | retain (bits : BitVec 8)
  | insert (bits : BitVec 8)
  | remove (bits : BitVec 8)
  | toggle (bits : BitVec 8)
  | intersect (bits : BitVec 8)
  | complement
  deriving DecidableEq, Repr

/-- Only a complement, or a byte that is truncated, loses its undefined bits. -/
def edit? (f : DialectFlags) : Edit → Option DialectFlags
  | .exactly bits => if bits &&& ~~~defined = 0 then some ⟨bits⟩ else none
  | .truncate bits => some ⟨bits &&& defined⟩
  | .retain bits => some ⟨bits⟩
  | .insert bits => some (f.insert ⟨bits⟩)
  | .remove bits => some (f.remove ⟨bits⟩)
  | .toggle bits => some ⟨f.bits ^^^ bits⟩
  | .intersect bits => some ⟨f.bits &&& bits⟩
  | .complement => some ⟨~~~f.bits &&& defined⟩

-- ---------------------------------------------------------------------------
-- Names
-- ---------------------------------------------------------------------------

def optionNames : List (DialectFlags × String) :=
  [(constParameters, "const-parameters"), (variantRecords, "variant-records")]

def enabledNames (f : DialectFlags) : List String :=
  (optionNames.filter fun (flag, _) => f.contains flag).map (·.2)

def constantNames : List (DialectFlags × String) :=
  [(constParameters, "CONST_PARAMETERS"), (variantRecords, "VARIANT_RECORDS")]

/-- The constants that are set, then the undefined bits as one number. -/
def listing (f : DialectFlags) : String :=
  let named := (constantNames.filter fun (flag, _) => f.contains flag).map (·.2)
  let number (bits : BitVec 8) := "0x" ++ String.ofList (Nat.toDigits 16 bits.toNat)
  let extra := f.bits &&& ~~~defined
  let parts := if extra = 0 then named else named ++ [number extra]
  "DialectFlags(" ++ (if f.isEmpty then number 0 else " | ".intercalate parts) ++ ")"

end DialectFlags

end Lookahead
