/-!
# Unsigned numerals

A numeral is one optional `+` and one or more ASCII digits. Letters stand for
the digits from ten on in either case, and leading zeros do not matter.
-/

namespace Lookahead.Text

def digit? (base : Nat) (c : Char) : Option Nat :=
  let value :=
    if '0' ≤ c && c ≤ '9' then c.toNat - '0'.toNat
    else if 'a' ≤ c && c ≤ 'z' then c.toNat - 'a'.toNat + 10
    else if 'A' ≤ c && c ≤ 'Z' then c.toNat - 'A'.toNat + 10
    else base
  if value < base then some value else none

/-- The value of a run of digits, after those already read. -/
def digits? (base : Nat) : (before : Nat) → List Char → Option Nat
  | before, [] => some before
  | before, c :: cs => do
    let d ← digit? base c
    digits? base (base * before + d) cs

def dropSign : List Char → List Char
  | '+' :: cs => cs
  | cs => cs

def numeral? (base : Nat) (cs : List Char) : Option Nat :=
  match dropSign cs with
  | [] => none
  | ds => digits? base 0 ds

/-- A numeral whose value fits in so many bits. -/
def word? (bits base : Nat) (cs : List Char) : Option (BitVec bits) := do
  let n ← numeral? base cs
  if n < 1 <<< bits then some (BitVec.ofNat bits n) else none

def decimal (n : Nat) : List Char := Nat.toDigits 10 n

/-- Lower-case digits after `0x`, as many as the number of bits asks for. -/
def hex {bits : Nat} (w : BitVec bits) : List Char :=
  '0' :: 'x' :: (Nat.toDigits 16 w.toNat).leftpad ((bits + 3) / 4) '0'

end Lookahead.Text
