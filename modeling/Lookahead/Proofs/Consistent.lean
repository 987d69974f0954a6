import Lookahead.Proofs.Bits
import Lookahead.TokenSet.Basic

/-!
# Consistent sets

A set is consistent if its count is that of its bits and every bit is that of
an element. `ofWords` accepts exactly the stored words of consistent sets, and
every way of building a set gives a consistent one.
-/

namespace Lookahead.TokenSet

structure Consistent (s : TokenSet) : Prop where
  count_eq : s.count = s.bits.cpop.toNat
  isElement : ∀ n, s.bits.getLsbD n = true → isElementOrdinal n = true

-- ---------------------------------------------------------------------------
-- Segments
-- ---------------------------------------------------------------------------

theorem getLsbD_segmentOf (bits : BitVec capacity) (k i : Nat) :
    (segmentOf bits k).getLsbD i =
      (decide (i < segmentBits) && bits.getLsbD (segmentBits * k + i)) := by
  rw [segmentOf, BitVec.getLsbD_extractLsb']

theorem segmentOf_and (x y : BitVec capacity) (k : Nat) :
    segmentOf (x &&& y) k = segmentOf x k &&& segmentOf y k :=
  BitVec.extractLsb'_and

theorem segmentOf_or (x y : BitVec capacity) (k : Nat) :
    segmentOf (x ||| y) k = segmentOf x k ||| segmentOf y k :=
  BitVec.extractLsb'_or

theorem append_segmentOf (bits : BitVec capacity) :
    segmentOf bits 2 ++ segmentOf bits 1 ++ segmentOf bits 0 = bits := by
  apply BitVec.eq_of_getLsbD_eq
  intro i hi
  simp only [BitVec.getLsbD_append, getLsbD_segmentOf, segmentBits]
  by_cases h0 : i < 32
  · simp [h0]
  · by_cases h1 : i < 64
    · simp [h0, show i - 32 < 32 by omega, show 32 + (i - 32) = i by omega]
    · simp [h0, show ¬ i - 32 < 32 by omega, show i - 32 - 32 < 32 by omega,
        show 64 + (i - 32 - 32) = i by omega]

theorem segmentOf_append (high mid low : Word) :
    segmentOf (high ++ mid ++ low) 0 = low ∧ segmentOf (high ++ mid ++ low) 1 = mid ∧
      segmentOf (high ++ mid ++ low) 2 = high := by
  refine ⟨?_, ?_, ?_⟩ <;> apply BitVec.eq_of_getLsbD_eq <;> intro i hi <;>
    simp only [getLsbD_segmentOf, segmentBits, hi, BitVec.getLsbD_append]
  · simp [hi]
  · simp [show ¬ 32 + i < 32 by omega, hi]
  · simp [show ¬ 64 + i < 32 by omega, show ¬ 64 + i - 32 < 32 by omega,
      show 64 + i - 32 - 32 = i by omega]

theorem eq_zero_iff_segmentOf {bits : BitVec capacity} :
    bits = 0 ↔ segmentOf bits 0 = 0 ∧ segmentOf bits 1 = 0 ∧ segmentOf bits 2 = 0 := by
  constructor
  · rintro rfl
    simp [segmentOf]
  · rintro ⟨h0, h1, h2⟩
    rw [← append_segmentOf bits, h0, h1, h2]
    rfl

theorem cpop_eq_sum (bits : BitVec capacity) :
    bits.cpop.toNat = (segmentOf bits 0).cpop.toNat + (segmentOf bits 1).cpop.toNat +
      (segmentOf bits 2).cpop.toNat := by
  rw [← append_segmentOf bits, BitVec.toNat_cpop_append, BitVec.toNat_cpop_append,
    append_segmentOf]
  omega

theorem getLsbD_eq_segmentOf (bits : BitVec capacity) (n : Nat) :
    bits.getLsbD n = (segmentOf bits (n / segmentBits)).getLsbD (n % segmentBits) := by
  rw [getLsbD_segmentOf, Nat.div_add_mod]
  simp [Nat.mod_lt n (show 0 < 32 by decide)]

-- ---------------------------------------------------------------------------
-- Stored words
-- ---------------------------------------------------------------------------

theorem Consistent.getLsbD_segment (h : Consistent s) {k i : Nat}
    (hi : isElementOrdinal (segmentBits * k + i) = false) : (s.segment k).getLsbD i = false := by
  rw [segment, getLsbD_segmentOf]
  cases hbit : s.bits.getLsbD (segmentBits * k + i) with
  | false => simp
  | true => rw [h.isElement _ hbit] at hi; cases hi

theorem isElementOrdinal_iff : isElementOrdinal n = true ↔ 1 ≤ n ∧ n ≤ 77 := by
  simp [isElementOrdinal]

theorem consistent_iff_segments : Consistent s ↔
    s.count = (s.segment 0).cpop.toNat + (s.segment 1).cpop.toNat + (s.segment 2).cpop.toNat ∧
      (s.segment 0).getLsbD 0 = false ∧ (s.segment 2).toNat < 2 ^ 14 := by
  constructor
  · intro h
    refine ⟨h.count_eq.trans (cpop_eq_sum s.bits), h.getLsbD_segment rfl, ?_⟩
    refine Nat.lt_pow_two_of_testBit _ fun i hi => h.getLsbD_segment ?_
    rw [← Bool.not_eq_true, isElementOrdinal_iff]
    simp only [segmentBits]
    omega
  · rintro ⟨hcount, hlow, hhigh⟩
    refine ⟨hcount.trans (cpop_eq_sum s.bits).symm, fun n hn => ?_⟩
    have hlt : n < 96 := BitVec.lt_of_getLsbD hn
    rw [isElementOrdinal_iff]
    rw [getLsbD_eq_segmentOf] at hn
    constructor
    · by_contra hzero
      obtain rfl : n = 0 := by omega
      have hset : (s.segment 0).getLsbD 0 = true := hn
      rw [hlow] at hset
      cases hset
    · by_contra hpast
      have hdiv : n / segmentBits = 2 := by simp only [segmentBits]; omega
      have hmod : 14 ≤ n % segmentBits := by simp only [segmentBits]; omega
      have hclear : (s.segment 2).getLsbD (n % segmentBits) = false :=
        Nat.testBit_lt_two_pow (Nat.lt_of_lt_of_le hhigh (Nat.pow_le_pow_right (by decide) hmod))
      rw [hdiv, ← segment, hclear] at hn
      cases hn

theorem and_not_alphabet_eq_zero_iff {bits : BitVec capacity} :
    bits &&& ~~~alphabet = 0 ↔ ∀ n, bits.getLsbD n = true → isElementOrdinal n = true := by
  constructor
  · intro h n hn
    have hbit : (bits &&& ~~~alphabet).getLsbD n = false := by rw [h]; simp
    rw [BitVec.getLsbD_and, BitVec.getLsbD_not, getLsbD_alphabet, hn] at hbit
    simpa [BitVec.lt_of_getLsbD hn, isElementOrdinal] using hbit
  · intro h
    apply BitVec.eq_of_getLsbD_eq
    intro n _
    rw [BitVec.getLsbD_and, BitVec.getLsbD_not, getLsbD_alphabet]
    cases hn : bits.getLsbD n with
    | false => simp
    | true => simpa [isElementOrdinal] using fun _ => h n hn

theorem stray?_eq_none_iff {bits : BitVec capacity} :
    stray? bits = none ↔ ∀ n, bits.getLsbD n = true → isElementOrdinal n = true := by
  rw [← and_not_alphabet_eq_zero_iff, eq_zero_iff_segmentOf]
  simp [stray?, segmentCount, List.range_succ]

theorem Consistent.count_le_capacity (h : Consistent s) : s.count ≤ capacity := by
  rw [h.count_eq]
  exact BitVec.toNat_cpop_le _

theorem words_append (high mid low declared : Word) :
    (⟨high ++ mid ++ low, declared.toNat⟩ : TokenSet).words = [low, mid, high, declared] := by
  obtain ⟨h0, h1, h2⟩ := segmentOf_append high mid low
  simp [words, segments, segment, segmentCount, List.range_succ, h0, h1, h2]

theorem Consistent.toNat_ofNat_count (h : Consistent s) :
    (BitVec.ofNat 32 s.count).toNat = s.count := by
  rw [BitVec.toNat_ofNat]
  exact Nat.mod_eq_of_lt (Nat.lt_of_le_of_lt h.count_le_capacity (by decide))

theorem Consistent.ofWords_words (h : Consistent s) : ofWords s.words = .ok s := by
  have hbits : s.segment 2 ++ s.segment 1 ++ s.segment 0 = s.bits := append_segmentOf s.bits
  have hwords : s.words = [s.segment 0, s.segment 1, s.segment 2, BitVec.ofNat 32 s.count] := rfl
  rw [hwords]
  simp only [ofWords, hbits]
  rw [if_neg (by rw [h.toNat_ofNat_count]; exact Nat.not_lt.mpr h.count_le_capacity),
    if_neg (by rw [h.toNat_ofNat_count, not_not]; exact h.count_eq.symm),
    stray?_eq_none_iff.mpr h.isElement, ← h.count_eq]

theorem ofWords_eq_ok_iff {words : List Word} {s : TokenSet} :
    ofWords words = .ok s ↔ s.Consistent ∧ words = s.words := by
  constructor
  · intro h
    unfold ofWords at h
    split at h
    · next low mid high declared =>
      simp only at h
      split at h
      · cases h
      split at h
      · cases h
      next hcount =>
      split at h
      · cases h
      next hstray =>
      rw [not_not] at hcount
      rw [hcount] at h
      cases h
      exact ⟨⟨hcount.symm, stray?_eq_none_iff.mp hstray⟩, (words_append ..).symm⟩
    · cases h
  · rintro ⟨hs, rfl⟩
    exact hs.ofWords_words

theorem eq_append_iff {s : TokenSet} {low mid high n : Word} :
    s = ⟨high ++ mid ++ low, n.toNat⟩ ↔ s.segments = [low, mid, high] ∧ s.count = n.toNat := by
  constructor
  · rintro rfl
    obtain ⟨h0, h1, h2⟩ := segmentOf_append high mid low
    simp [segments, segment, segmentCount, List.range_succ, h0, h1, h2]
  · rintro ⟨hsegments, hcount⟩
    obtain ⟨rfl, rfl, rfl⟩ : s.segment 0 = low ∧ s.segment 1 = mid ∧ s.segment 2 = high := by
      simpa [segments, segmentCount, List.range_succ] using hsegments
    rw [← hcount]
    exact congrArg (TokenSet.mk · s.count) (append_segmentOf s.bits).symm

theorem Consistent.words_eq_iff {s : TokenSet} {low mid high declared : Word} (h : s.Consistent) :
    s.words = [low, mid, high, declared] ↔ s = ⟨high ++ mid ++ low, declared.toNat⟩ := by
  constructor
  · intro hwords
    obtain ⟨hsegments, hdeclared⟩ : s.segments = [low, mid, high] ∧
        [BitVec.ofNat 32 s.count] = [declared] := List.append_inj' hwords rfl
    cases hdeclared
    exact eq_append_iff.mpr ⟨hsegments, h.toNat_ofNat_count.symm⟩
  · rintro rfl
    exact words_append ..

theorem ofWords_cons_eq_ok_iff {low mid high declared : Word} {s : TokenSet} :
    ofWords [low, mid, high, declared] = .ok s ↔
      (low.cpop.toNat + mid.cpop.toNat + high.cpop.toNat = declared.toNat ∧
        low.getLsbD 0 = false ∧ high.toNat < 2 ^ 14) ∧
      s = ⟨high ++ mid ++ low, declared.toNat⟩ := by
  obtain ⟨h0, h1, h2⟩ := segmentOf_append high mid low
  have hiff := consistent_iff_segments (s := ⟨high ++ mid ++ low, declared.toNat⟩)
  simp only [segment, h0, h1, h2] at hiff
  rw [ofWords_eq_ok_iff]
  constructor
  · rintro ⟨hs, hwords⟩
    have heq := hs.words_eq_iff.mp hwords.symm
    obtain ⟨hcount, hlow, hhigh⟩ := hiff.mp (heq ▸ hs)
    exact ⟨⟨hcount.symm, hlow, hhigh⟩, heq⟩
  · rintro ⟨⟨hcount, hlow, hhigh⟩, rfl⟩
    exact ⟨hiff.mpr ⟨hcount.symm, hlow, hhigh⟩, (words_append ..).symm⟩

-- ---------------------------------------------------------------------------
-- Building sets
-- ---------------------------------------------------------------------------

theorem getLsbD_insertBit {m n : Nat} {bits : BitVec capacity} :
    (insertBit m bits).getLsbD n = true ↔ bits.getLsbD n = true ∨ (n < capacity ∧ n = m) := by
  rw [insertBit, BitVec.getLsbD_or, BitVec.getLsbD_twoPow]
  simp only [Bool.or_eq_true, Bool.and_eq_true, decide_eq_true_eq]
  refine or_congr_right ⟨?_, ?_⟩
  · rintro ⟨hm, rfl⟩; exact ⟨hm, rfl⟩
  · rintro ⟨hn, rfl⟩; exact ⟨hn, rfl⟩

theorem getLsbD_foldl_insertBit {ns : List Nat} {bits : BitVec capacity} {n : Nat} :
    (ns.foldl (fun bits m => insertBit m bits) bits).getLsbD n = true ↔
      bits.getLsbD n = true ∨ (n < capacity ∧ n ∈ ns) := by
  induction ns generalizing bits with
  | nil => simp
  | cons m ns ih =>
    rw [List.foldl_cons, ih, getLsbD_insertBit, or_assoc, ← and_or_left, List.mem_cons]

theorem consistent_ofBits {bits : BitVec capacity}
    (h : ∀ n, bits.getLsbD n = true → isElementOrdinal n = true) : (ofBits bits).Consistent :=
  ⟨rfl, h⟩

theorem consistent_foldl_insertBit {ns : List Nat} (h : ∀ n ∈ ns, isElementOrdinal n = true) :
    (ofBits (ns.foldl (fun bits n => insertBit n bits) 0)).Consistent := by
  apply consistent_ofBits
  intro n hn
  rw [getLsbD_foldl_insertBit] at hn
  simp at hn
  exact h n hn.2

theorem isElementOrdinal_ordinal {t : Token} :
    isElementOrdinal t.ordinal = true ↔ t ≠ .unknown := by
  cases t <;> decide

theorem ofTokens_eq_ofBits (ts : List Token) :
    ofTokens ts = ofBits (((ts.filter (· ≠ .unknown)).map Token.ordinal).foldl
      (fun bits n => insertBit n bits) 0) := by
  rw [ofTokens, List.foldl_map, List.foldl_filter]
  congr 2
  funext bits t
  by_cases ht : t = .unknown <;> simp [ht]

theorem consistent_ofTokens (ts : List Token) : (ofTokens ts).Consistent := by
  rw [ofTokens_eq_ofBits]
  apply consistent_foldl_insertBit
  intro n hn
  obtain ⟨t, ht, rfl⟩ := List.mem_map.mp hn
  rw [isElementOrdinal_ordinal]
  simpa using (List.mem_filter.mp ht).2

theorem ofOrdinals_eq_ok_iff {ns : List Nat} {s : TokenSet} :
    ofOrdinals ns = .ok s ↔ (∀ n ∈ ns, isElementOrdinal n = true) ∧
      ofBits (ns.foldl (fun bits n => insertBit n bits) 0) = s := by
  unfold ofOrdinals
  split
  next n hn =>
    have hmem := List.mem_of_find?_eq_some hn
    have hbad := List.find?_some hn
    simp at hbad
    simp
    intro h
    simp [h n hmem] at hbad
  next hn =>
    rw [List.find?_eq_none] at hn
    simpa using fun _ => hn

theorem consistent_union {a b : TokenSet} (ha : a.Consistent) (hb : b.Consistent) :
    (a.union b).Consistent := by
  apply consistent_ofBits
  intro n hn
  rw [BitVec.getLsbD_or, Bool.or_eq_true] at hn
  exact hn.elim (ha.isElement n) (hb.isElement n)

theorem consistent_unionOf {sets : List TokenSet} (h : ∀ s ∈ sets, s.Consistent)
    (hu : unionOf sets = .ok u) : u.Consistent := by
  cases sets with
  | nil => cases hu
  | cons s rest =>
    cases hu
    have hs := h s List.mem_cons_self
    replace h : ∀ t ∈ rest, t.Consistent := fun t ht => h t (List.mem_cons_of_mem _ ht)
    induction rest generalizing s with
    | nil => exact hs
    | cons t rest ih =>
      have hst := consistent_union hs (h t List.mem_cons_self)
      exact ih (s.union t) hst fun r hr => h r (List.mem_cons_of_mem _ hr)

theorem consistent_empty : (∅ : TokenSet).Consistent := by
  refine ⟨?_, fun n hn => ?_⟩
  · show 0 = (0 : BitVec capacity).cpop.toNat
    simp
  · exact absurd hn (by simp [show (∅ : TokenSet).bits = 0 from rfl])

end Lookahead.TokenSet
