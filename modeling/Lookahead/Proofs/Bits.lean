import Mathlib.Algebra.Ring.Nat
import Mathlib.Data.List.Sort

/-!
# Counting and clearing bits

The bits of a word as the list of their places. Its length is the population
count, and clearing the lowest bit drops its head.
-/

namespace Lookahead.Bits

theorem eq_iff_getLsbD {x y : BitVec w} : x = y ↔ ∀ i, x.getLsbD i = y.getLsbD i :=
  ⟨fun h _ => h ▸ rfl, fun h => BitVec.eq_of_getLsbD_eq fun i _ => h i⟩

/-- A number is an odd multiple of the power of its lowest bit, and taking one from it borrows
that bit alone. -/
theorem testBit_and_sub_one (k q i : Nat) :
    (2 ^ k * (2 * q + 1) &&& (2 ^ k * (2 * q + 1) - 1)).testBit i =
      ((2 ^ k * (2 * q + 1)).testBit i && i != k) := by
  have hpos : 0 < 2 ^ k := Nat.two_pow_pos k
  have hlow : 2 ^ k * (2 * q + 1) - 1 = 2 ^ k * (2 * q) + (2 ^ k - 1) := by
    rw [Nat.mul_add]; omega
  rw [Nat.testBit_and, hlow, Nat.testBit_two_pow_mul_add _ (by omega), Nat.testBit_two_pow_mul]
  by_cases hlt : i < k
  · simp [hlt, Nat.not_le_of_lt hlt]
  · rcases Nat.eq_or_lt_of_le (Nat.le_of_not_lt hlt) with rfl | hgt
    · simp
    · obtain ⟨j, rfl⟩ : ∃ j, i = k + 1 + j := ⟨i - (k + 1), by omega⟩
      have hj : k + 1 + j - k = j + 1 := by omega
      have hne : k + 1 + j ≠ k := by omega
      have hq : (2 * q + 1) / 2 = q := by omega
      rw [hj]
      simp [Nat.testBit_succ, hne, hlt, hq]

theorem exists_toNat_eq (x : BitVec w) (hx : x ≠ 0) :
    ∃ q, x.toNat = 2 ^ x.ctz.toNat * (2 * q + 1) := by
  have hset : x.toNat.testBit x.ctz.toNat = true := BitVec.getLsbD_true_ctz_of_ne_zero hx
  have hlow : x.toNat % 2 ^ x.ctz.toNat = 0 := by
    refine Nat.eq_of_testBit_eq fun i => ?_
    rw [Nat.testBit_mod_two_pow, Nat.zero_testBit, Bool.and_eq_false_imp]
    exact fun hi => BitVec.getLsbD_false_of_lt_ctz (of_decide_eq_true hi)
  have hodd : x.toNat / 2 ^ x.ctz.toNat % 2 = 1 := by
    simpa [Nat.testBit_eq_decide_div_mod_eq] using hset
  refine ⟨x.toNat / 2 ^ x.ctz.toNat / 2, ?_⟩
  have hdiv := Nat.div_add_mod x.toNat (2 ^ x.ctz.toNat)
  have hhalf := Nat.div_add_mod (x.toNat / 2 ^ x.ctz.toNat) 2
  rw [hlow, Nat.add_zero] at hdiv
  rw [hodd] at hhalf
  rw [hhalf, hdiv]

theorem getLsbD_and_sub_one (x : BitVec w) (hx : x ≠ 0) (i : Nat) :
    (x &&& (x - 1)).getLsbD i = (x.getLsbD i && i != x.ctz.toNat) := by
  obtain ⟨q, hq⟩ := exists_toNat_eq x hx
  have hpos : 0 < x.toNat := by rw [hq]; exact Nat.mul_pos (Nat.two_pow_pos _) (by omega)
  have hone : (1#w).toNat = 1 := by
    refine BitVec.toNat_one (Nat.pos_of_ne_zero fun hw => ?_)
    have := x.isLt
    simp only [hw, Nat.pow_zero] at this
    omega
  have hsub : (x - 1).toNat = x.toNat - 1 := by
    rw [BitVec.toNat_sub_of_le (by rw [BitVec.le_def, BitVec.ofNat_eq_ofNat, hone]; exact hpos)]
    rw [BitVec.ofNat_eq_ofNat, hone]
  have h := testBit_and_sub_one x.ctz.toNat q i
  rw [← hq] at h
  rw [BitVec.getLsbD, BitVec.toNat_and, hsub, h]
  rfl

theorem and_twoPow_ne_zero_iff {x : BitVec w} (hi : i < w) :
    x &&& BitVec.twoPow w i ≠ 0 ↔ x.getLsbD i = true := by
  have hpower : BitVec.twoPow w i ≠ 0 := by
    intro hzero
    have hbit := congrArg (BitVec.getLsbD · i) hzero
    simp [hi] at hbit
  rw [BitVec.and_twoPow]
  split
  next hset => simpa [hset] using hpower
  next hclear => simp [hclear]

theorem toNat_ctz_eq {x : BitVec w} (hset : x.getLsbD n = true)
    (hlow : ∀ i < n, x.getLsbD i = false) : x.ctz.toNat = n := by
  rcases Nat.lt_trichotomy x.ctz.toNat n with hlt | heq | hgt
  · have hx : x ≠ 0 := by
      rintro rfl
      simp at hset
    have htrue := BitVec.getLsbD_true_ctz_of_ne_zero hx
    simp [hlow _ hlt] at htrue
  · exact heq
  · simp [BitVec.getLsbD_false_of_lt_ctz hgt] at hset

-- ---------------------------------------------------------------------------
-- Places
-- ---------------------------------------------------------------------------

/-- The places of the bits that are set, the lowest first. -/
def positions (x : BitVec w) : List Nat := (List.range w).filter x.getLsbD

theorem mem_positions {x : BitVec w} : n ∈ positions x ↔ x.getLsbD n = true := by
  simp only [positions, List.mem_filter, List.mem_range, and_iff_right_iff_imp]
  exact BitVec.lt_of_getLsbD

theorem length_filter_range (x : BitVec w) (k : Nat) :
    ((List.range k).filter x.getLsbD).length = x.cpopNatRec k 0 := by
  induction k with
  | zero => rfl
  | succ k ih =>
    rw [List.range_succ, List.filter_append, List.length_append, ih, BitVec.cpopNatRec_succ,
      BitVec.cpopNatRec_eq (0 + _)]
    cases hk : x.getLsbD k <;> simp [hk]

theorem length_positions (x : BitVec w) : (positions x).length = x.cpop.toNat := by
  rw [positions, length_filter_range, BitVec.toNat_cpop]

theorem positions_pairwise (x : BitVec w) : (positions x).Pairwise (· < ·) :=
  List.pairwise_lt_range.filter _

theorem positions_of_ne_zero (x : BitVec w) (hx : x ≠ 0) :
    positions x = x.ctz.toNat :: positions (x &&& (x - 1)) := by
  have hset : x.getLsbD x.ctz.toNat = true := BitVec.getLsbD_true_ctz_of_ne_zero hx
  refine (positions_pairwise x).eq_of_mem_iff (List.pairwise_cons.mpr ⟨?_, positions_pairwise _⟩) ?_
  · intro n hn
    rw [mem_positions, getLsbD_and_sub_one x hx] at hn
    by_contra hlt
    rcases Nat.lt_or_eq_of_le (Nat.le_of_not_lt hlt) with hlow | rfl
    · simp [BitVec.getLsbD_false_of_lt_ctz hlow] at hn
    · simp at hn
  · intro n
    rw [List.mem_cons, mem_positions, mem_positions, getLsbD_and_sub_one x hx]
    by_cases hn : n = x.ctz.toNat
    · simp [hn, hset]
    · simp [hn]

theorem positions_eq_nil_iff {x : BitVec w} : positions x = [] ↔ x = 0 := by
  constructor
  · intro h
    by_contra hx
    rw [positions_of_ne_zero x hx] at h
    cases h
  · rintro rfl
    simp [positions]

end Lookahead.Bits
