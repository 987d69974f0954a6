import Lookahead.Proofs.Consistent
import Lookahead.TokenSet.Iter

/-!
# Members and iteration

The members of a consistent set are the tokens of its bits, in order and as
many as its count says. An iterator yields a list of tokens if the bits that
are left are theirs; a step then takes the head of that list.
-/

namespace Lookahead

open Bits (positions)

theorem Token.map_ordinal_all : Token.all.map Token.ordinal = List.range Token.count := by decide

theorem Token.exists_ordinal_eq (h : n < Token.count) : ∃ t : Token, t.ordinal = n := by
  rw [← List.mem_range, ← Token.map_ordinal_all, List.mem_map] at h
  obtain ⟨t, -, hn⟩ := h
  exact ⟨t, hn⟩

namespace TokenSet

-- ---------------------------------------------------------------------------
-- Members
-- ---------------------------------------------------------------------------

theorem Consistent.hasOrdinal_eq (h : Consistent s) (n : Nat) :
    s.hasOrdinal n = s.bits.getLsbD n := by
  rw [hasOrdinal]
  cases hn : s.bits.getLsbD n with
  | false => simp
  | true => simp [h.isElement n hn]

theorem exists_mem_of_hasOrdinal (h : hasOrdinal s n = true) : ∃ t ∈ s.toList, t.ordinal = n := by
  have hn : n ≤ Token.maxOrdinal := by
    simp only [hasOrdinal, isElementOrdinal, Bool.and_eq_true, decide_eq_true_eq] at h
    exact h.1.2
  obtain ⟨t, rfl⟩ := Token.exists_ordinal_eq (Nat.lt_succ_of_le hn)
  exact ⟨t, mem_toList.mpr h, rfl⟩

theorem pairwise_ordinal_toList (s : TokenSet) :
    (s.toList.map Token.ordinal).Pairwise (· < ·) := by
  have hall : (Token.all.map Token.ordinal).Pairwise (· < ·) := by
    rw [Token.map_ordinal_all]
    exact List.pairwise_lt_range
  exact hall.sublist (List.filter_sublist.map _)

theorem pairwise_toList (s : TokenSet) : s.toList.Pairwise (· < ·) := by
  have h := pairwise_ordinal_toList s
  rwa [List.pairwise_map] at h

theorem nodup_toList (s : TokenSet) : s.toList.Nodup :=
  (pairwise_toList s).imp fun hlt heq => Nat.ne_of_lt hlt (congrArg Token.ordinal heq)

theorem Consistent.map_ordinal_toList (h : Consistent s) :
    s.toList.map Token.ordinal = positions s.bits := by
  refine (pairwise_ordinal_toList s).eq_of_mem_iff (Bits.positions_pairwise _) fun n => ?_
  rw [Bits.mem_positions, ← h.hasOrdinal_eq, List.mem_map]
  constructor
  · rintro ⟨t, ht, rfl⟩
    exact mem_toList.mp ht
  · exact exists_mem_of_hasOrdinal

theorem Consistent.length_toList (h : Consistent s) : s.toList.length = s.count := by
  rw [← List.length_map Token.ordinal, h.map_ordinal_toList, Bits.length_positions, h.count_eq]

theorem length_toList_le (s : TokenSet) : s.toList.length ≤ Token.maxOrdinal := by
  -- `unknown` comes first and is no member, so the members are among the other tokens.
  have htail : s.toList = Token.all.tail.filter s.contains := rfl
  rw [htail]
  exact List.length_filter_le _ _

theorem toNat_ofNat_ordinal (t : Token) : (BitVec.ofNat 32 t.ordinal).toNat = t.ordinal := by
  rw [BitVec.toNat_ofNat]
  exact Nat.mod_eq_of_lt (Nat.lt_trans t.ordinal_lt_count (by decide))

/-- It is enough to ask for the ordinals that a word can hold. -/
theorem Consistent.isEmpty_iff (h : Consistent s) :
    s.isEmpty = true ↔ ∀ n : Word, s.hasOrdinal n.toNat = false := by
  rw [isEmpty, beq_iff_eq, ← h.length_toList, List.length_eq_zero_iff]
  constructor
  · intro hnil n
    by_contra hn
    obtain ⟨t, ht, -⟩ := exists_mem_of_hasOrdinal (Bool.not_eq_false _ ▸ hn)
    simp [hnil] at ht
  · intro hnone
    refine List.eq_nil_iff_forall_not_mem.mpr fun t ht => ?_
    have hmem : s.hasOrdinal t.ordinal = true := mem_toList.mp ht
    rw [← toNat_ofNat_ordinal t, hnone] at hmem
    cases hmem

namespace Iter

-- ---------------------------------------------------------------------------
-- Steps
-- ---------------------------------------------------------------------------

/-- These tokens are still to come, in this order. -/
def Yields (it : Iter) (ts : List Token) : Prop := positions it.rest = ts.map Token.ordinal

theorem Yields.remaining (h : Yields it ts) : it.remaining = ts.length := by
  rw [Iter.remaining, ← Bits.length_positions, h, List.length_map]

theorem Yields.next_nil (h : Yields it []) : it.next = (none, it) := by
  have hzero : it.rest = 0 := Bits.positions_eq_nil_iff.mp h
  rw [next, if_pos hzero]

theorem Yields.next_cons (h : Yields it (t :: ts)) :
    ∃ it', it.next = (some t, it') ∧ Yields it' ts := by
  have hne : it.rest ≠ 0 := by
    intro hzero
    rw [Yields, Bits.positions_eq_nil_iff.mpr hzero] at h
    cases h
  rw [Yields, Bits.positions_of_ne_zero _ hne, List.map_cons, List.cons.injEq] at h
  obtain ⟨hlow, hrest⟩ := h
  refine ⟨⟨it.rest &&& (it.rest - 1)⟩, ?_, hrest⟩
  rw [next, if_neg hne, hlow, Token.ofOrdinal?_ordinal]

theorem Yields.take (h : Yields it ts) (n : Nat) :
    ∃ it', it.take n = (ts.take n, it') ∧ Yields it' (ts.drop n) := by
  induction n generalizing it ts with
  | zero => exact ⟨it, rfl, h⟩
  | succ n ih =>
    cases ts with
    | nil => exact ⟨it, by rw [Iter.take, h.next_nil]; rfl, h⟩
    | cons t ts =>
      obtain ⟨it₁, hnext, h₁⟩ := h.next_cons
      obtain ⟨it₂, htake, h₂⟩ := ih h₁
      exact ⟨it₂, by rw [Iter.take, hnext]; simp only [htake, List.take_succ_cons], h₂⟩

theorem Yields.drain (h : Yields it ts) : ∃ it', it.drain = (ts, it') ∧ Yields it' [] := by
  obtain ⟨it', htake, h'⟩ := h.take it.remaining
  rw [h.remaining, List.take_length] at htake
  rw [h.remaining, List.drop_length] at h'
  exact ⟨it', by rw [Iter.drain, h.remaining, htake], h'⟩

theorem Yields.fst_drain (h : Yields it ts) : it.drain.1 = ts := by
  obtain ⟨_, hdrain, -⟩ := h.drain
  rw [hdrain]

end Iter

theorem Consistent.yields_iter (h : Consistent s) : s.iter.Yields s.toList :=
  h.map_ordinal_toList.symm

theorem Consistent.drain_iter (h : Consistent s) : s.iter.drain.1 = s.toList :=
  h.yields_iter.fst_drain

end TokenSet

end Lookahead
