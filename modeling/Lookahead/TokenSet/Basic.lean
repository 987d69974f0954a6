import Lookahead.Token
import Lookahead.TokenSet.Error

/-!
# Sets of tokens

A set holds one bit for each token, at the place of its ordinal, and the number
of its elements. For storage the bits are cut into three segments of 32, the
low one first, and the element count follows them as a fourth word.

`ofWords` takes stored words back. It never corrects a count that disagrees
with the bits, and it refuses the bit of `unknown` and those past `endOfFile`.
-/

namespace Lookahead

abbrev Word := BitVec 32

namespace TokenSet

abbrev segmentBits : Nat := 32
abbrev segmentCount : Nat := 3
abbrev capacity : Nat := 96
abbrev literalLength : Nat := 4

end TokenSet

structure TokenSet where
  bits : BitVec TokenSet.capacity
  count : Nat
  deriving DecidableEq, Repr

namespace TokenSet

theorem capacity_eq : capacity = segmentCount * segmentBits := rfl

theorem tokenCount_le_capacity : Token.count ≤ capacity := by decide

/-- The bits of the tokens that a set may hold. -/
def alphabet : BitVec capacity :=
  (BitVec.allOnes Token.maxOrdinal).setWidth capacity <<< Token.minElement

theorem getLsbD_alphabet (n : Nat) :
    alphabet.getLsbD n = decide (Token.minElement ≤ n ∧ n ≤ Token.maxOrdinal) := by
  rw [Bool.eq_iff_iff]
  simp only [alphabet, BitVec.getLsbD_shiftLeft, BitVec.getLsbD_setWidth, BitVec.getLsbD_allOnes,
    Bool.and_eq_true, Bool.not_eq_true', decide_eq_true_eq, decide_eq_false_iff_not,
    capacity, Token.minElement, Token.maxOrdinal]
  omega

-- ---------------------------------------------------------------------------
-- Building sets
-- ---------------------------------------------------------------------------

def ofBits (bits : BitVec capacity) : TokenSet := ⟨bits, bits.cpop.toNat⟩

def empty : TokenSet := ⟨0, 0⟩

instance : EmptyCollection TokenSet := ⟨empty⟩
instance : Inhabited TokenSet := ⟨empty⟩

def insertBit (n : Nat) (bits : BitVec capacity) : BitVec capacity := bits ||| BitVec.twoPow capacity n

/-- The set of the listed tokens, `unknown` left out. -/
def ofTokens (ts : List Token) : TokenSet :=
  ofBits (ts.foldl (fun bits t => if t = .unknown then bits else insertBit t.ordinal bits) 0)

def isElementOrdinal (n : Nat) : Bool := Token.minElement ≤ n && n ≤ Token.maxOrdinal

/-- The set of the tokens with these ordinals. The first that no element has is refused. -/
def ofOrdinals (ns : List Nat) : Except TokenSetError TokenSet :=
  match ns.find? (!isElementOrdinal ·) with
  | some n => .error (.ordinalOutOfRange n Token.maxOrdinal)
  | none => .ok (ofBits (ns.foldl (fun bits n => insertBit n bits) 0))

/-- The part of the bits that is stored in the given segment. -/
def segmentOf (bits : BitVec capacity) (k : Nat) : Word := bits.extractLsb' (segmentBits * k) segmentBits

/-- The lowest segment that sets a bit outside the alphabet, with all such bits of it. -/
def stray? (bits : BitVec capacity) : Option (Nat × Word) :=
  ((List.range segmentCount).map fun k => (k, segmentOf (bits &&& ~~~alphabet) k)).find? (·.2 ≠ 0)

def ofWords : List Word → Except TokenSetError TokenSet
  | [low, mid, high, declared] =>
    let bits : BitVec capacity := high ++ mid ++ low
    let actual := bits.cpop.toNat
    if capacity < declared.toNat then .error (.counterOverflow declared.toNat capacity)
    else if actual ≠ declared.toNat then .error (.countMismatch declared.toNat actual)
    else match stray? bits with
      | some (segment, bits) => .error (.strayBits segment bits)
      | none => .ok ⟨bits, actual⟩
  | words => .error (.segmentCount segmentCount (words.length - 1))

/-- A defect of the program text, where a set is spelled out as words. -/
inductive Defect where
  | malformedLiteral
  deriving DecidableEq, Repr

def Defect.message : Defect → String
  | .malformedLiteral => "malformed token set literal"

/-- A set spelled out in a program. Words that `ofWords` refuses are a defect there. -/
def literal (words : List Word) : Except Defect TokenSet :=
  match ofWords words with
  | .ok s => .ok s
  | .error _ => .error .malformedLiteral

-- ---------------------------------------------------------------------------
-- Views
-- ---------------------------------------------------------------------------

def segment (s : TokenSet) (k : Nat) : Word := segmentOf s.bits k

def segments (s : TokenSet) : List Word := (List.range segmentCount).map s.segment

/-- The stored form, as `ofWords` reads it. -/
def words (s : TokenSet) : List Word := s.segments ++ [BitVec.ofNat 32 s.count]

def isEmpty (s : TokenSet) : Bool := s.count == 0

/-- Ordinals outside the alphabet, and that of `unknown`, are never members. -/
def hasOrdinal (s : TokenSet) (n : Nat) : Bool := isElementOrdinal n && s.bits.getLsbD n

def contains (s : TokenSet) (t : Token) : Bool := s.hasOrdinal t.ordinal

instance : Membership Token TokenSet := ⟨fun s t => s.contains t = true⟩
instance (t : Token) (s : TokenSet) : Decidable (t ∈ s) := inferInstanceAs (Decidable (_ = true))

/-- The members, in the order of the alphabet. -/
def toList (s : TokenSet) : List Token := Token.all.filter s.contains

theorem mem_toList {t : Token} {s : TokenSet} : t ∈ s.toList ↔ t ∈ s := by
  simp only [toList, List.mem_filter, Token.mem_all, true_and]
  rfl

-- ---------------------------------------------------------------------------
-- Relations and unions
-- ---------------------------------------------------------------------------

def isSubset (a b : TokenSet) : Bool := b.bits &&& a.bits == a.bits

def isSuperset (a b : TokenSet) : Bool := b.isSubset a

def isDisjoint (a b : TokenSet) : Bool := a.bits &&& b.bits == 0

/-- The elements of a union are counted anew: shared ones count once. -/
def union (a b : TokenSet) : TokenSet := ofBits (a.bits ||| b.bits)

instance : Union TokenSet := ⟨union⟩

def unionOf : List TokenSet → Except TokenSetError TokenSet
  | [] => .error .emptyUnion
  | s :: rest => .ok (rest.foldl union s)

end TokenSet

end Lookahead
