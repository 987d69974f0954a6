import Lookahead.Proofs.Iteration
import Mathlib.Data.Finset.Card

/-!
# The finite set of members

A consistent set is determined by its members (`Consistent.members_inj`) and counts them. Unions
and the relations of sets are those of the finite sets that `members` gives.
-/

namespace Lookahead.TokenSet

/-- The finite set that a token set stands for. -/
def members (s : TokenSet) : Finset Token := s.toList.toFinset

@[simp] theorem mem_members : t ∈ members s ↔ t ∈ s := by
  simp [members, mem_toList]

@[simp] theorem members_empty : (∅ : TokenSet).members = ∅ := by decide

theorem Consistent.card_members (h : Consistent s) : s.members.card = s.count := by
  rw [members, List.toFinset_card_of_nodup (nodup_toList s), h.length_toList]

-- ---------------------------------------------------------------------------
-- Ordinals and bits
-- ---------------------------------------------------------------------------

theorem hasOrdinal_iff {s : TokenSet} : s.hasOrdinal n = true ↔ ∃ t ∈ s, t.ordinal = n := by
  constructor
  · intro h
    obtain ⟨t, ht, hn⟩ := exists_mem_of_hasOrdinal h
    exact ⟨t, mem_toList.mp ht, hn⟩
  · rintro ⟨t, ht, rfl⟩
    exact ht

theorem hasOrdinal_ordinal {s : TokenSet} {t : Token} : s.hasOrdinal t.ordinal = true ↔ t ∈ s :=
  Iff.rfl

theorem Consistent.getLsbD_iff (h : Consistent s) :
    s.bits.getLsbD n = true ↔ ∃ t ∈ s, t.ordinal = n := by
  rw [← h.hasOrdinal_eq, hasOrdinal_iff]

theorem Consistent.mem_iff (h : Consistent s) : t ∈ s ↔ s.bits.getLsbD t.ordinal = true := by
  rw [← h.hasOrdinal_eq]
  rfl

theorem Consistent.ext (ha : Consistent a) (hb : Consistent b) (h : ∀ t, t ∈ a ↔ t ∈ b) :
    a = b := by
  have hbits : a.bits = b.bits := by
    simp [Bits.eq_iff_getLsbD, Bool.eq_iff_iff, ha.getLsbD_iff, hb.getLsbD_iff, h]
  have hcount : a.count = b.count := by rw [ha.count_eq, hb.count_eq, hbits]
  cases a
  cases b
  simp_all

theorem Consistent.members_inj (ha : Consistent a) (hb : Consistent b) :
    a.members = b.members ↔ a = b := by
  refine ⟨fun h => ha.ext hb fun t => ?_, fun h => h ▸ rfl⟩
  rw [← mem_members, h, mem_members]

theorem mem_ofTokens {ts : List Token} : t ∈ ofTokens ts ↔ t ∈ ts ∧ t ≠ .unknown := by
  have hlt : t.ordinal < capacity := Nat.lt_of_lt_of_le t.ordinal_lt_count tokenCount_le_capacity
  rw [(consistent_ofTokens ts).mem_iff, ofTokens_eq_ofBits, ofBits, getLsbD_foldl_insertBit,
    List.mem_map_of_injective fun _ _ => Token.ordinal_injective]
  simp [hlt]

theorem ofTokens_mono {ts us : List Token} (h : ts ⊆ us) (t : Token) (ht : t ∈ ofTokens ts) :
    t ∈ ofTokens us := by
  obtain ⟨hmem, hne⟩ := mem_ofTokens.mp ht
  exact mem_ofTokens.mpr ⟨h hmem, hne⟩

-- ---------------------------------------------------------------------------
-- Unions and relations
-- ---------------------------------------------------------------------------

theorem hasOrdinal_union (a b : TokenSet) (n : Nat) :
    (a.union b).hasOrdinal n = (a.hasOrdinal n || b.hasOrdinal n) := by
  simp [hasOrdinal, union, ofBits, Bool.and_or_distrib_left]

@[simp] theorem mem_union : t ∈ union a b ↔ t ∈ a ∨ t ∈ b := by
  simp [← hasOrdinal_ordinal, hasOrdinal_union]

@[simp] theorem members_union (a b : TokenSet) : (a.union b).members = a.members ∪ b.members := by
  ext t
  simp

theorem isSubset_iff_getLsbD :
    isSubset a b = true ↔ ∀ n, a.bits.getLsbD n = true → b.bits.getLsbD n = true := by
  simp [isSubset, Bits.eq_iff_getLsbD]

theorem mem_of_isSubset (h : isSubset a b = true) (ht : t ∈ a) : t ∈ b := by
  rw [← hasOrdinal_ordinal, hasOrdinal, Bool.and_eq_true] at ht ⊢
  exact ⟨ht.1, isSubset_iff_getLsbD.mp h _ ht.2⟩

theorem isDisjoint_iff_getLsbD :
    isDisjoint a b = true ↔ ∀ n, a.bits.getLsbD n = true → b.bits.getLsbD n = false := by
  simp [isDisjoint, Bits.eq_iff_getLsbD]

theorem Consistent.isSubset_iff (ha : Consistent a) (hb : Consistent b) :
    a.isSubset b = true ↔ a.members ⊆ b.members := by
  simp [isSubset_iff_getLsbD, ha.getLsbD_iff, Finset.subset_iff, hb.mem_iff]

theorem Consistent.isDisjoint_iff (ha : Consistent a) (hb : Consistent b) :
    a.isDisjoint b = true ↔ Disjoint a.members b.members := by
  simp [isDisjoint_iff_getLsbD, ha.getLsbD_iff, Finset.disjoint_left, hb.mem_iff]

end Lookahead.TokenSet
