import Mathlib.Algebra.Ring.Nat
import Lookahead.TokenSet.Basic

/-!
# A machine that may fail

Words have 32 bits and sizes 64. A fault ends the program: a place past the end of a list, a shift
by as many bits as there are, a number that does not fit, a difference below zero, a literal that is
no set. A `Checked` computation has a value unless it comes to a fault.
-/

namespace Lookahead.Machine

inductive Fault where
  | place (index length : Nat)
  | shift (amount : Nat)
  | overflow (width value : Nat)
  | underflow
  | defect (d : TokenSet.Defect)
  deriving DecidableEq, Repr

abbrev Checked := Except Fault

/-- A list of so many elements that a size counts them. -/
abbrev Slice (α : Type u) := { as : List α // as.length < 2 ^ 64 }

@[simp] theorem pure_eq_ok (a : α) : (pure a : Checked α) = .ok a := rfl

@[simp] theorem throw_eq_error (e : Fault) : (throw e : Checked α) = .error e := rfl

@[simp] theorem ok_bind (a : α) (f : α → Checked β) : Except.ok a >>= f = f a := rfl

@[simp] theorem error_bind (e : Fault) (f : α → Checked β) :
    Except.error e >>= f = .error e := rfl

@[simp] theorem bind_ok (x : Checked α) : x >>= Except.ok = x := by cases x <;> rfl

def fetch (as : List α) (i : Nat) : Checked α :=
  match as[i]? with
  | some a => .ok a
  | none => .error (.place i as.length)

def fetchFrom (as : List α) (i : Nat) : Checked (List α) :=
  if i ≤ as.length then .ok (as.drop i) else .error (.place i as.length)

def store (as : List α) (i : Nat) (a : α) : Checked (List α) :=
  if i < as.length then .ok (as.set i a) else .error (.place i as.length)

/-- The word with one bit set, shifted up to its place. -/
def bitAt (n : Nat) : Checked Word :=
  if n < 32 then .ok (BitVec.twoPow 32 n) else .error (.shift n)

/-- The number, if so many bits can hold it. -/
def fit (width n : Nat) : Checked Nat :=
  if n < 2 ^ width then .ok n else .error (.overflow width n)

def difference (m n : Nat) : Checked Nat := if n ≤ m then .ok (m - n) else .error .underflow

def predecessor (w : Word) : Checked Word := if w = 0 then .error .underflow else .ok (w - 1)

/-- Runs the body at each place below the bound, from `i` on. The place is counted up as a size. -/
def loop (bound : Nat) (body : Nat → σ → Checked σ) (i : Nat) (s : σ) : Checked σ :=
  if i < bound then do
    let s ← body i s
    let _ ← fit 64 (i + 1)
    loop bound body (i + 1) s
  else return s
termination_by bound - i

/-- Asks at each place below the bound, from `i` on, until there is an answer. -/
def search (bound : Nat) (ask : Nat → Checked (Option α)) (i : Nat) : Checked (Option α) :=
  if i < bound then do
    match ← ask i with
    | some a => return some a
    | none =>
      let _ ← fit 64 (i + 1)
      search bound ask (i + 1)
  else return none
termination_by bound - i

end Lookahead.Machine
