import Lookahead.Grammar.Rows
import Lookahead.Proofs.Iteration
import Lookahead.Proofs.Parsing
import Lookahead.Recovery.Point

/-!
# Reachable sets

The sets a program can hold are those the constructors give, in any
composition. All of them are consistent, and so are the rows of the tables.
Every consistent set is reachable by its stored words. `stored_invariant` spells
out what a reachable set stores and what its views agree on.
-/

namespace Lookahead

namespace TokenSet

inductive Reachable : TokenSet → Prop
  | empty : Reachable ∅
  | default : Reachable default
  | ofWords : ofWords raw = .ok s → Reachable s
  | literal : literal raw = .ok s → Reachable s
  | ofTokens (ts : List Token) : Reachable (ofTokens ts)
  | ofOrdinals : ofOrdinals ns = .ok s → Reachable s
  | parse : (parse text).run.value = .ok s → Reachable s
  | union : Reachable a → Reachable b → Reachable (a.union b)
  | unionOf : (∀ s ∈ sets, Reachable s) → unionOf sets = .ok u → Reachable u

theorem Reachable.consistent (h : Reachable s) : s.Consistent := by
  induction h with
  | empty => exact consistent_empty
  | default => exact consistent_empty
  | ofWords h => exact (ofWords_eq_ok_iff.mp h).1
  | literal h => exact (ofWords_eq_ok_iff.mp (literal_eq_ok_iff.mp h)).1
  | ofTokens ts => exact consistent_ofTokens ts
  | ofOrdinals h =>
    obtain ⟨hns, rfl⟩ := ofOrdinals_eq_ok_iff.mp h
    exact consistent_foldl_insertBit hns
  | parse h =>
    obtain ⟨_, _, -, -, -, hraw⟩ := value_parse_eq_ok_iff.mp h
    exact (ofWords_eq_ok_iff.mp hraw).1
  | union _ _ iha ihb => exact consistent_union iha ihb
  | unionOf _ hu ih => exact consistent_unionOf ih hu

theorem reachable_iff_consistent : Reachable s ↔ s.Consistent :=
  ⟨Reachable.consistent, fun h => .ofWords h.ofWords_words⟩

end TokenSet

theorem Table.reachable_canonical (table : Table) (p : Production) :
    (table.canonical p).Reachable := by
  cases table <;> exact .ofTokens _

theorem Table.reachable_alternate (table : Table) (p : Production) :
    (table.alternate p).Reachable := by
  cases table <;> exact .ofTokens _

theorem Table.reachable_of_mem_rows (h : s ∈ Table.rows table) : s.Reachable := by
  rw [Table.rows, List.mem_append, List.mem_map, List.mem_map] at h
  rcases h with ⟨p, -, rfl⟩ | ⟨p, -, rfl⟩
  · exact table.reachable_canonical p
  · exact table.reachable_alternate p

theorem ResyncPoint.reachable_resync (p : ResyncPoint) : p.resync.Reachable := .ofTokens p.tokens

namespace TokenSet

theorem Consistent.count_eq_sum (h : Consistent s) :
    s.count = (s.segments.map fun w => w.cpop.toNat).sum := by
  rw [h.count_eq, cpop_eq_sum]
  simp [segments, segment, segmentCount, List.range_succ, Nat.add_assoc]

theorem stored_invariant :
    (∀ table, ∀ s ∈ Table.rows table, Reachable s) ∧
    (∀ p : ResyncPoint, Reachable p.resync) ∧
    ∀ s, Reachable s →
      s.count = (s.segments.map fun w => w.cpop.toNat).sum ∧
      (s.segment 0).getLsbD 0 = false ∧
      (∀ i, 14 ≤ i → i < segmentBits → (s.segment 2).getLsbD i = false) ∧
      s.iter.drain.1 = s.toList ∧
      s.count = s.toList.length ∧
      s.count ≤ 77 ∧
      (s.isEmpty = true ↔ ∀ n : Word, s.hasOrdinal n.toNat = false) ∧
      TokenSet.ofWords (s.segments ++ [BitVec.ofNat 32 s.count]) = .ok s := by
  refine ⟨fun table s hs => Table.reachable_of_mem_rows hs, ResyncPoint.reachable_resync, ?_⟩
  intro s hr
  have hs := hr.consistent
  refine ⟨hs.count_eq_sum, ?_, ?_, ?_, hs.length_toList.symm, ?_, hs.isEmpty_iff, hs.ofWords_words⟩
  · exact hs.getLsbD_segment rfl
  · intro i hlow _
    apply hs.getLsbD_segment
    have hpast : ¬ segmentBits * 2 + i ≤ Token.maxOrdinal := by
      simp only [segmentBits, Token.maxOrdinal]
      omega
    simp [isElementOrdinal, hpast]
  · obtain ⟨it, hdrain, -⟩ := hs.yields_iter.drain
    rw [hdrain]
  · rw [← hs.length_toList]
    exact length_toList_le s

theorem stored_invariant_of_union :
    ∃ s, TokenSet.literal [0x10801048, 0x00000050, 0x00000000, 7] = .ok s ∧
      Reachable (s.union (.ofTokens [.unknown, .DIV, .BEGIN, .endOfFile])) ∧
      (s.union (.ofTokens [.unknown, .DIV, .BEGIN, .endOfFile])).count = 9 ∧
      TokenSet.ofWords [0x10801148, 0x00000050, 0x00002000, 9] =
        .ok (s.union (.ofTokens [.unknown, .DIV, .BEGIN, .endOfFile])) := by
  have hlit : TokenSet.literal [0x10801048, 0x00000050, 0x00000000, 7] =
      .ok ⟨0x5010801048, 7⟩ := by decide
  have hr : Reachable (union ⟨0x5010801048, 7⟩ (.ofTokens [.unknown, .DIV, .BEGIN, .endOfFile])) :=
    .union (.literal hlit) (.ofTokens _)
  obtain ⟨-, -, -, -, -, -, -, hwords⟩ := stored_invariant.2.2 _ hr
  exact ⟨_, hlit, hr, by decide, hwords⟩

end TokenSet

end Lookahead
