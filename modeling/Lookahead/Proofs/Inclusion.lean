import Lookahead.Proofs.Members
import Lookahead.Proofs.Reachable

/-!
# Inclusion and disjointness

`relations_exact`: the tests on bits decide inclusion and disjointness of the members, which are what
an iterator yields, and agree with unions and counts. So inclusion is a partial order, and the count
is strictly monotone in it.
-/

namespace Lookahead.TokenSet

-- ---------------------------------------------------------------------------
-- Segments
-- ---------------------------------------------------------------------------

theorem eq_iff_segmentOf {x y : BitVec capacity} :
    x = y ↔ ∀ k < segmentCount, segmentOf x k = segmentOf y k := by
  refine ⟨fun h _ _ => h ▸ rfl, fun h => ?_⟩
  rw [← append_segmentOf x, ← append_segmentOf y, h 0 (by decide), h 1 (by decide),
    h 2 (by decide)]

/-- No segment has bits that the other set lacks there. -/
theorem isSubset_iff_segment : isSubset a b = true ↔
    ∀ k < segmentCount, (b.segment k &&& a.segment k) ^^^ a.segment k = 0 := by
  rw [isSubset, beq_iff_eq, eq_iff_segmentOf]
  refine forall₂_congr fun k _ => ?_
  rw [segmentOf_and]
  exact BitVec.xor_eq_zero_iff.symm

theorem isDisjoint_iff_segment : isDisjoint a b = true ↔
    ∀ k < segmentCount, a.segment k &&& b.segment k = 0 := by
  rw [isDisjoint, beq_iff_eq, eq_iff_segmentOf]
  refine forall₂_congr fun k _ => ?_
  rw [segmentOf_and, show segmentOf 0 k = 0 by simp [segmentOf]]
  rfl

-- ---------------------------------------------------------------------------
-- Lists of members
-- ---------------------------------------------------------------------------

theorem Consistent.isSubset_iff_toList (ha : Consistent a) (hb : Consistent b) :
    a.isSubset b = true ↔ ∀ t ∈ a.toList, t ∈ b.toList := by
  simp [ha.isSubset_iff hb, Finset.subset_iff, mem_toList]

theorem Consistent.isDisjoint_iff_toList (ha : Consistent a) (hb : Consistent b) :
    a.isDisjoint b = true ↔ ∀ t ∈ a.toList, t ∉ b.toList := by
  simp [ha.isDisjoint_iff hb, Finset.disjoint_left, mem_toList]

-- ---------------------------------------------------------------------------
-- Unions and counts
-- ---------------------------------------------------------------------------

theorem Consistent.isSubset_iff_union_eq (ha : Consistent a) (hb : Consistent b) :
    a.isSubset b = true ↔ a.union b = b := by
  rw [ha.isSubset_iff hb, ← (consistent_union ha hb).members_inj hb, members_union,
    Finset.union_eq_right]

theorem Consistent.isDisjoint_iff_count_union (ha : Consistent a) (hb : Consistent b) :
    a.isDisjoint b = true ↔ (a.union b).count = a.count + b.count := by
  rw [ha.isDisjoint_iff hb, ← (consistent_union ha hb).card_members, ← ha.card_members,
    ← hb.card_members, members_union, Finset.card_union_eq_card_add_card]

theorem Consistent.count_le_of_isSubset (ha : Consistent a) (hb : Consistent b)
    (h : a.isSubset b = true) : a.count ≤ b.count := by
  rw [← ha.card_members, ← hb.card_members]
  exact Finset.card_le_card ((ha.isSubset_iff hb).mp h)

theorem Consistent.eq_of_isSubset_of_count_eq (ha : Consistent a) (hb : Consistent b)
    (h : a.isSubset b = true) (hcount : a.count = b.count) : a = b := by
  rw [← ha.card_members, ← hb.card_members] at hcount
  rw [← ha.members_inj hb]
  exact Finset.eq_of_subset_of_card_le ((ha.isSubset_iff hb).mp h) hcount.ge

-- ---------------------------------------------------------------------------
-- The order
-- ---------------------------------------------------------------------------

theorem Consistent.isSubset_refl (h : Consistent s) : s.isSubset s = true := by
  simp [h.isSubset_iff h]

theorem Consistent.isSubset_trans (ha : Consistent a) (hb : Consistent b) (hc : Consistent c)
    (hab : a.isSubset b = true) (hbc : b.isSubset c = true) : a.isSubset c = true := by
  rw [ha.isSubset_iff hb] at hab
  rw [hb.isSubset_iff hc] at hbc
  rw [ha.isSubset_iff hc]
  exact hab.trans hbc

theorem Consistent.isSubset_antisymm (ha : Consistent a) (hb : Consistent b)
    (hab : a.isSubset b = true) (hba : b.isSubset a = true) : a = b := by
  rw [ha.isSubset_iff hb] at hab
  rw [hb.isSubset_iff ha] at hba
  exact (ha.members_inj hb).mp (hab.antisymm hba)

theorem Consistent.eq_empty_of_isSubset_of_isDisjoint (ha : Consistent a) (hb : Consistent b)
    (hsub : a.isSubset b = true) (hdisj : a.isDisjoint b = true) : a = ∅ := by
  rw [ha.isSubset_iff hb] at hsub
  rw [ha.isDisjoint_iff hb] at hdisj
  rw [← ha.members_inj consistent_empty, members_empty]
  exact (Finset.disjoint_self_iff_empty _).mp (hdisj.mono_right hsub)

theorem Consistent.isDisjoint_mono (ha : Consistent a) (hb : Consistent b) (hc : Consistent c)
    (hd : Consistent d) (hca : c.isSubset a = true) (hdb : d.isSubset b = true)
    (h : a.isDisjoint b = true) : c.isDisjoint d = true := by
  rw [hc.isSubset_iff ha] at hca
  rw [hd.isSubset_iff hb] at hdb
  rw [ha.isDisjoint_iff hb] at h
  rw [hc.isDisjoint_iff hd]
  exact h.mono hca hdb

theorem relations_exact (hra : Reachable a) (hrb : Reachable b) :
    (a.iter.drain.1 = a.toList ∧ b.iter.drain.1 = b.toList) ∧
    (a.isSubset b = true ↔
      ∀ k < segmentCount, (b.segment k &&& a.segment k) ^^^ a.segment k = 0) ∧
    (a.isDisjoint b = true ↔ ∀ k < segmentCount, a.segment k &&& b.segment k = 0) ∧
    (a.isSubset b = true ↔ ∀ t ∈ a.toList, t ∈ b.toList) ∧
    (a.isSubset b = true ↔ a.union b = b) ∧
    (a.isSuperset b = true ↔ b.isSubset a = true) ∧
    (a.isDisjoint b = true ↔ ∀ t ∈ a.toList, t ∉ b.toList) ∧
    (a.isDisjoint b = true ↔ (a.union b).count = a.count + b.count) ∧
    a.isSubset a = true ∧
    (a.isSubset b = true → b.isSubset a = true → a = b) ∧
    (∀ c, Reachable c → a.isSubset b = true → b.isSubset c = true → a.isSubset c = true) ∧
    (a.isSubset b = true → a.count ≤ b.count ∧ (a.count = b.count → a = b)) ∧
    (a.isSubset b = true → a.isDisjoint b = true → a = ∅) ∧
    ∀ c d, Reachable c → Reachable d → c.isSubset a = true → d.isSubset b = true →
      a.isDisjoint b = true → c.isDisjoint d = true := by
  have ha := hra.consistent
  have hb := hrb.consistent
  refine ⟨⟨ha.drain_iter, hb.drain_iter⟩,
    isSubset_iff_segment, isDisjoint_iff_segment, ha.isSubset_iff_toList hb,
    ha.isSubset_iff_union_eq hb, Iff.rfl, ha.isDisjoint_iff_toList hb,
    ha.isDisjoint_iff_count_union hb, ha.isSubset_refl, ha.isSubset_antisymm hb, ?_, ?_,
    ha.eq_empty_of_isSubset_of_isDisjoint hb, ?_⟩
  · exact fun c hrc => ha.isSubset_trans hb hrc.consistent
  · exact fun h => ⟨ha.count_le_of_isSubset hb h, ha.eq_of_isSubset_of_count_eq hb h⟩
  · exact fun c d hrc hrd => ha.isDisjoint_mono hb hrc.consistent hrd.consistent

theorem relations_exact_of_tokens :
    (ofTokens [.END, .semicolon]).isSubset (ofTokens [.semicolon, .ELSE, .END, .ELSIF]) = true ∧
    (ofTokens [.END, .semicolon]).union (ofTokens [.semicolon, .ELSE, .END, .ELSIF]) =
      ofTokens [.semicolon, .ELSE, .END, .ELSIF] ∧
    (ofTokens [.END, .semicolon]).isDisjoint (ofTokens [.leftParen, .identifier]) = true ∧
    ((ofTokens [.END, .semicolon]).union (ofTokens [.leftParen, .identifier])).count = 4 ∧
    (ofTokens [.END]).isDisjoint (ofTokens [.identifier]) = true := by
  have hr (ts : List Token) : Reachable (ofTokens ts) := .ofTokens ts
  obtain ⟨-, -, -, -, hunion, -⟩ :=
    relations_exact (hr [.END, .semicolon]) (hr [.semicolon, .ELSE, .END, .ELSIF])
  obtain ⟨-, -, -, -, -, -, -, hcount, -, -, -, -, -, hmono⟩ :=
    relations_exact (hr [.END, .semicolon]) (hr [.leftParen, .identifier])
  have hsub : (ofTokens [.END, .semicolon]).isSubset
      (ofTokens [.semicolon, .ELSE, .END, .ELSIF]) = true := by decide
  have hdisj : (ofTokens [.END, .semicolon]).isDisjoint
      (ofTokens [.leftParen, .identifier]) = true := by decide
  exact ⟨hsub, hunion.mp hsub, hdisj, hcount.mp hdisj,
    hmono _ _ (hr _) (hr _) (by decide) (by decide) hdisj⟩

end Lookahead.TokenSet
