import Lookahead.Proofs.Recovery
import Lookahead.Proofs.Session
import Mathlib.Order.Bounds.Defs

/-!
# Skipping in a stream

`synchronize_stops_first`: from wherever a run has taken a cursor, skipping ends at the first place
of the stream that holds a token of the set or is the end, and says which of them it is.
`synchronize_union`: two sets together stop at the first of the places where each of them does, and
what a larger set skips a smaller set skips as well.
-/

namespace Lookahead.Cursor

namespace Within

variable {ts : List Token} {c : Cursor} (h : Within ts c)
include h

theorem recovered (recovery : TokenSet) : Within ts (c.recovered recovery) := by
  rw [recovered_eq]
  exact h.forward List.findIdx_le_length

theorem recovers_iff_position_lt (recovery : TokenSet) :
    c.recovers recovery = true ↔ (c.recovered recovery).position < ts.idxOf .endOfFile := by
  rw [recovers, value_synchronize_eq, decide_eq_true_iff, position_recovered,
    ← h.position_add_length_ahead, Nat.add_lt_add_iff_left]

theorem skipped_notMem (recovery : TokenSet) :
    ∀ t ∈ (ts.drop c.position).take ((c.recovered recovery).position - c.position),
      t ∉ recovery := by
  rw [position_recovered, Nat.add_sub_cancel_left, ← h.take_ahead List.findIdx_le_length]
  intro t ht hmem
  obtain ⟨k, hk, rfl⟩ := List.mem_take_iff_getElem.mp ht
  have hmiss := List.not_of_lt_findIdx (Nat.lt_of_lt_of_le hk (Nat.min_le_left _ _))
  exact Bool.false_ne_true (hmiss.symm.trans hmem)

theorem isLeast_position_recovered (recovery : TokenSet) :
    IsLeast {i | c.position ≤ i ∧ (i = ts.idxOf .endOfFile ∨ ∃ t ∈ recovery, ts[i]? = some t)}
      (c.recovered recovery).position := by
  have hlast := h.position_add_length_ahead
  rw [position_recovered]
  constructor
  · refine ⟨Nat.le_add_right _ _, ?_⟩
    have hle : c.ahead.findIdx recovery.contains ≤ c.ahead.length := List.findIdx_le_length
    rcases Nat.lt_or_eq_of_le hle with hfound | hnone
    · refine .inr ⟨_, List.findIdx_getElem (w := hfound), ?_⟩
      rw [← h.getElem?_ahead hfound, List.getElem?_eq_getElem hfound]
    · exact .inl (by rw [hnone, hlast])
  · rintro i ⟨hle, hstop⟩
    obtain ⟨k, rfl⟩ := Nat.exists_eq_add_of_le hle
    refine Nat.add_le_add_left ?_ _
    by_contra hlt
    have hmiss := List.not_of_lt_findIdx (Nat.lt_of_not_le hlt)
    have hk := Nat.lt_of_lt_of_le (Nat.lt_of_not_le hlt) List.findIdx_le_length
    rcases hstop with heq | ⟨t, ht, hget⟩
    · omega
    · rw [← h.getElem?_ahead hk, List.getElem?_eq_getElem hk, Option.some.injEq] at hget
      rw [hget] at hmiss
      exact Bool.false_ne_true (hmiss.symm.trans ht)

end Within

theorem synchronize_stops_first (ts : List Token) (moves : List Move) (recovery : TokenSet) :
    let c := ((Session.ofTokens ts).after moves).cursor
    let stop := c.recovered recovery
    let last := ts.idxOf .endOfFile
    (∀ result, Scans recovery c result ↔ (c.recovers recovery, stop) = result) ∧
    stop.rest = ts.drop stop.position ∧
    IsLeast {i | c.position ≤ i ∧ (i = last ∨ ∃ t ∈ recovery, ts[i]? = some t)} stop.position ∧
    (c.recovers recovery = true ↔ stop.position < last) ∧
    (∀ t ∈ (ts.drop c.position).take (stop.position - c.position), t ∉ recovery) ∧
    (c.recovers recovery = true → stop.isAt recovery = true ∧ stop.isAtEnd = false) ∧
    (c.recovers recovery = false → stop.isAtEnd = true) ∧
    (stop.synchronize recovery).value = (c.recovers recovery, stop) := by
  intro c stop last
  have h : Within ts c := Session.within_ofTokens ts moves c List.mem_cons_self
  obtain ⟨hfound, hnone⟩ := (scans_synchronize c recovery).stopped
  exact ⟨fun _ => scans_iff, (h.recovered recovery).rest_eq, h.isLeast_position_recovered recovery,
    h.recovers_iff_position_lt recovery, h.skipped_notMem recovery, hfound, hnone,
    synchronize_recovered (fun _ ht => ht) c⟩

/-- A set that holds `endOfFile` finds a token before the end, and then none at the end. -/
theorem synchronize_stops_first_of_tokens :
    let stream : List Token := [.unknown, .END, .plus, .endOfFile, .END]
    let recovery := TokenSet.ofTokens [.END, .endOfFile]
    let first := (Cursor.ofTokens stream).recovered recovery
    let second := ((Session.ofTokens stream).after
      [.step (.synchronize recovery), .step .advance]).cursor.recovered recovery
    first.position = 1 ∧ first.isAt recovery = true ∧
      (first.synchronize recovery).value = (true, first) ∧
    second.position = 3 ∧ second.isAt recovery = true ∧ second.isAtEnd = true ∧
      (second.synchronize recovery).value = (false, second) := by
  intro stream recovery first second
  let moves : List Move := [.step (.synchronize recovery), .step .advance]
  obtain ⟨-, -, -, -, -, hat, -, hagain⟩ := synchronize_stops_first stream [] recovery
  obtain ⟨-, -, -, -, -, -, hend, hagain'⟩ := synchronize_stops_first stream moves recovery
  have hfound : (Cursor.ofTokens stream).recovers recovery = true := by decide +kernel
  have hnone : ((Session.ofTokens stream).after moves).cursor.recovers recovery = false := by
    decide +kernel
  exact ⟨by decide +kernel, (hat hfound).1, hfound ▸ hagain, by decide +kernel,
    by decide +kernel, hend hnone, hnone ▸ hagain'⟩

theorem synchronize_union (c : Cursor) (a b : TokenSet) :
    (c.recovered (a.union b)).position = min (c.recovered a).position (c.recovered b).position ∧
    (c.recovers (a.union b) = true ↔ c.recovers a = true ∨ c.recovers b = true) ∧
    (a.isSubset b = true →
      (c.recovered b).position ≤ (c.recovered a).position ∧
      (c.recovers a = true → c.recovers b = true) ∧
      ((c.recovered b).synchronize a).value = (c.synchronize a).value) := by
  refine ⟨c.position_recovered_union a b, c.recovers_union a b, fun hsub => ?_⟩
  have h (t : Token) : t ∈ a → t ∈ b := TokenSet.mem_of_isSubset hsub
  exact ⟨position_recovered_anti h c, recovers_mono h c, synchronize_recovered h c⟩

/-- The larger set is found at once, the smaller one only beyond it. -/
theorem synchronize_union_of_tokens :
    let c := Cursor.ofTokens [.ELSE, .identifier, .semicolon, .endOfFile, .END]
    let a := TokenSet.ofTokens [.semicolon, .END]
    let b := TokenSet.ofTokens [.END, .ELSE, .semicolon]
    a.isSubset b = true ∧ (c.recovered b).position ≤ 2 ∧ c.recovers b = true ∧
      ((c.recovered b).synchronize a).value = (true, ⟨2, [.semicolon, .endOfFile, .END]⟩) := by
  intro c a b
  have hsub : a.isSubset b = true := by decide +kernel
  obtain ⟨-, -, hsubset⟩ := synchronize_union c a b
  obtain ⟨hsooner, hfound, htwice⟩ := hsubset hsub
  refine ⟨hsub, Nat.le_trans hsooner (by decide +kernel), hfound (by decide +kernel), ?_⟩
  rw [htwice]
  decide +kernel

end Lookahead.Cursor
