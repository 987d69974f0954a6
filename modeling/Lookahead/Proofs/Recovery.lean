import Lookahead.Proofs.Ahead
import Lookahead.Proofs.Members

/-!
# Where a recovery ends

Recovering with a set asks at every token whether it is the end or in the set, and goes on to the
next token if it is neither (`Scans`). So it stops at the first token ahead that is in the set, and
fails if there is none. A union stops at the first of the places where its parts do, and a larger
set never skips further.
-/

namespace Lookahead.Cursor

/-- Whether recovering with the set finds a token of it. -/
def recovers (c : Cursor) (recovery : TokenSet) : Bool := (c.synchronize recovery).value.1

/-- The cursor after recovering with the set. -/
def recovered (c : Cursor) (recovery : TokenSet) : Cursor := (c.synchronize recovery).value.2

-- ---------------------------------------------------------------------------
-- The first token of the set
-- ---------------------------------------------------------------------------

theorem distance_eq_findIdx (c : Cursor) (recovery : TokenSet) :
    c.distance recovery = c.ahead.findIdx recovery.contains := by
  rw [distance_eq, List.takeWhile_eq_take_findIdx_not, List.length_take]
  simp [List.findIdx_le_length]

theorem value_synchronize_eq (c : Cursor) (recovery : TokenSet) :
    (c.synchronize recovery).value =
      (decide (c.ahead.findIdx recovery.contains < c.ahead.length),
        c.forward (c.ahead.findIdx recovery.contains)) := by
  rw [value_synchronize, distance_eq_findIdx]

theorem recovered_eq (c : Cursor) (recovery : TokenSet) :
    c.recovered recovery = c.forward (c.ahead.findIdx recovery.contains) := by
  rw [recovered, value_synchronize_eq]

theorem position_recovered (c : Cursor) (recovery : TokenSet) :
    (c.recovered recovery).position = c.position + c.ahead.findIdx recovery.contains := by
  rw [recovered_eq, position_forward]

theorem recovers_iff {c : Cursor} {recovery : TokenSet} :
    c.recovers recovery = true ↔ ∃ t ∈ c.ahead, t ∈ recovery := by
  rw [recovers, value_synchronize_eq, decide_eq_true_iff, List.findIdx_lt_length]
  rfl

theorem findIdx_drop {p : α → Bool} {l : List α} (h : n ≤ l.findIdx p) :
    n + (l.drop n).findIdx p = l.findIdx p := by
  have hlen : n ≤ l.length := Nat.le_trans h List.findIdx_le_length
  have hnone : (l.take n).findIdx p = n := by
    rw [List.findIdx_take, Nat.min_eq_left h]
  conv_rhs => rw [← List.take_append_drop n l, List.findIdx_append]
  rw [List.length_take, Nat.min_eq_left hlen, hnone, if_neg (Nat.lt_irrefl n), Nat.add_comm]

/-- Tokens that are skipped may as well be passed before. -/
theorem synchronize_forward {c : Cursor} {recovery : TokenSet}
    (h : n ≤ c.ahead.findIdx recovery.contains) :
    ((c.forward n).synchronize recovery).value = (c.synchronize recovery).value := by
  have hlen : n ≤ c.ahead.length := Nat.le_trans h List.findIdx_le_length
  have hrest := findIdx_drop h
  rw [value_synchronize_eq, value_synchronize_eq, ahead_forward hlen, forward_forward, hrest,
    List.length_drop]
  congr 1
  rw [decide_eq_decide]
  omega

-- ---------------------------------------------------------------------------
-- Token by token
-- ---------------------------------------------------------------------------

/-- What comes of the skipping: whether a token of the set was found, and the cursor there. -/
inductive Scans (recovery : TokenSet) : Cursor → Bool × Cursor → Prop
  | atEnd : c.isAtEnd = true → Scans recovery c (false, c)
  | found : c.isAtEnd = false → c.isAt recovery = true → Scans recovery c (true, c)
  | skip : c.isAtEnd = false → c.isAt recovery = false →
      Scans recovery c.advance.value.2 result → Scans recovery c result

section
variable {c : Cursor} {recovery : TokenSet}

theorem synchronize_of_isAtEnd (h : c.isAtEnd = true) :
    (c.synchronize recovery).value = (false, c) := by
  simp [value_synchronize_eq, isAtEnd_iff.mp h]

theorem synchronize_of_isAt (hend : c.isAtEnd = false) (h : c.isAt recovery = true) :
    (c.synchronize recovery).value = (true, c) := by
  have hahead := ahead_of_not_isAtEnd hend
  rw [isAt] at h
  have hzero : c.ahead.findIdx recovery.contains = 0 := by
    rw [hahead, List.findIdx_cons, h, cond_true]
  rw [value_synchronize_eq, hzero, forward_zero, hahead]
  simp

theorem synchronize_advance (hend : c.isAtEnd = false) (h : c.isAt recovery = false) :
    (c.advance.value.2.synchronize recovery).value = (c.synchronize recovery).value := by
  have hahead := ahead_of_not_isAtEnd hend
  rw [isAt] at h
  have hone : 1 ≤ c.ahead.findIdx recovery.contains := by
    rw [hahead, List.findIdx_cons, h]
    exact Nat.le_add_left 1 _
  have hadvance : c.advance.value.2 = c.forward 1 := by
    rw [value_advance, hahead, List.length_cons, Nat.min_eq_left (Nat.le_add_left 1 _)]
  rw [hadvance, synchronize_forward hone]

theorem scans_synchronize (c : Cursor) (recovery : TokenSet) :
    Scans recovery c (c.synchronize recovery).value := by
  -- Every token that is skipped leaves one less ahead.
  induction hlen : c.ahead.length generalizing c with
  | zero =>
    have hend : c.isAtEnd = true := isAtEnd_iff.mpr (List.length_eq_zero_iff.mp hlen)
    rw [synchronize_of_isAtEnd hend]
    exact .atEnd hend
  | succ n ih =>
    have hend : c.isAtEnd = false := by
      rw [Bool.eq_false_iff, Ne, isAtEnd_iff]
      exact List.ne_nil_of_length_eq_add_one hlen
    cases h : c.isAt recovery with
    | true =>
      rw [synchronize_of_isAt hend h]
      exact .found hend h
    | false =>
      refine .skip hend h ?_
      rw [← synchronize_advance hend h]
      refine ih _ ?_
      have hadvance := congrArg List.length (ahead_forward (c := c) (Nat.min_le_right 1 _))
      rw [value_advance, hadvance, List.length_drop, hlen]
      omega

theorem scans_iff {result : Bool × Cursor} :
    Scans recovery c result ↔ (c.synchronize recovery).value = result := by
  constructor
  · intro h
    induction h with
    | atEnd hend => exact synchronize_of_isAtEnd hend
    | found hend h => exact synchronize_of_isAt hend h
    | skip hend h _ ih => rw [← synchronize_advance hend h, ih]
  · rintro rfl
    exact scans_synchronize c recovery

theorem Scans.stopped {result : Bool × Cursor} (h : Scans recovery c result) :
    (result.1 = true → result.2.isAt recovery = true ∧ result.2.isAtEnd = false) ∧
      (result.1 = false → result.2.isAtEnd = true) := by
  induction h with
  | atEnd hend => exact ⟨nofun, fun _ => hend⟩
  | found hend h => exact ⟨fun _ => ⟨h, hend⟩, nofun⟩
  | skip _ _ _ ih => exact ih

end

/-- At the end a set that holds `endOfFile` is seen though it is not found. Other sets are found
exactly where they are seen. -/
theorem recovers_eq_isAt {recovery : TokenSet} (h : .endOfFile ∉ recovery) (c : Cursor) :
    c.recovers recovery = (c.recovered recovery).isAt recovery := by
  obtain ⟨hfound, hnone⟩ := (scans_synchronize c recovery).stopped
  cases hc : c.recovers recovery with
  | true => exact (hfound hc).1.symm
  | false =>
    have hend : (c.recovered recovery).current = .endOfFile := beq_iff_eq.mp (hnone hc)
    rw [isAt, hend]
    exact (Bool.eq_false_iff.mpr h).symm

-- ---------------------------------------------------------------------------
-- Unions and larger sets
-- ---------------------------------------------------------------------------

theorem position_recovered_union (c : Cursor) (a b : TokenSet) :
    (c.recovered (a.union b)).position =
      min (c.recovered a).position (c.recovered b).position := by
  have hunion : (a.union b).contains = fun t => a.contains t || b.contains t :=
    funext fun t => a.hasOrdinal_union b t.ordinal
  rw [position_recovered, position_recovered, position_recovered, hunion,
    ← List.min_findIdx_findIdx, Nat.add_min_add_left]

theorem recovers_union (c : Cursor) (a b : TokenSet) :
    c.recovers (a.union b) = true ↔ c.recovers a = true ∨ c.recovers b = true := by
  simp only [recovers_iff, TokenSet.mem_union, and_or_left, exists_or]

section
variable {a b : TokenSet} (h : ∀ t, t ∈ a → t ∈ b) (c : Cursor)
include h

theorem position_recovered_anti : (c.recovered b).position ≤ (c.recovered a).position := by
  rw [position_recovered, position_recovered]
  exact Nat.add_le_add_left (List.findIdx_le_findIdx fun t _ => h t) _

theorem recovers_mono (ha : c.recovers a = true) : c.recovers b = true := by
  obtain ⟨t, ht, hmem⟩ := recovers_iff.mp ha
  exact recovers_iff.mpr ⟨t, ht, h t hmem⟩

theorem synchronize_recovered :
    ((c.recovered b).synchronize a).value = (c.synchronize a).value := by
  rw [recovered_eq, synchronize_forward (List.findIdx_le_findIdx fun t _ => h t)]

end

end Lookahead.Cursor
