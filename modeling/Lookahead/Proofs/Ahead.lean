import Lookahead.Recovery.Synchronize
import Mathlib.Data.List.TakeWhile

/-!
# What lies ahead of a cursor

A cursor shows its stream up to the first `endOfFile` and nothing of what is behind that, so each
of its operations is told by the tokens ahead: what it answers, how many of them it passes, and
what it reports. `Within` ties the cursor to the stream it was made for.
-/

namespace Lookahead

namespace Token

/-- The tokens before the first `endOfFile`. -/
def untilEnd (ts : List Token) : List Token := ts.takeWhile (· != .endOfFile)

variable {ts : List Token}

theorem endOfFile_notMem_untilEnd : .endOfFile ∉ untilEnd ts := fun h => by
  simpa using List.mem_takeWhile_imp h

@[simp] theorem untilEnd_cons_endOfFile : untilEnd (.endOfFile :: ts) = [] := rfl

theorem untilEnd_cons (h : t ≠ .endOfFile) : untilEnd (t :: ts) = t :: untilEnd ts := by
  simp [untilEnd, h]

theorem untilEnd_prefix : untilEnd ts <+: ts := List.takeWhile_prefix _

theorem untilEnd_of_notMem (h : .endOfFile ∉ ts) : untilEnd ts = ts := by
  refine List.takeWhile_eq_self_iff.mpr fun t ht => bne_iff_ne.mpr ?_
  rintro rfl
  exact h ht

theorem untilEnd_append_endOfFile (h : .endOfFile ∉ ts) (zs : List Token) :
    untilEnd (ts ++ .endOfFile :: zs) = ts := by
  induction ts with
  | nil => rfl
  | cons t ts ih =>
    obtain ⟨hne, hts⟩ := not_or.mp (List.mem_cons.not.mp h)
    rw [List.cons_append, untilEnd_cons (Ne.symm hne), ih hts]

theorem length_untilEnd : (untilEnd ts).length = ts.idxOf .endOfFile := by
  induction ts with
  | nil => rfl
  | cons t ts ih =>
    by_cases ht : t = .endOfFile
    · simp [ht]
    · simp [untilEnd_cons ht, ih, List.idxOf_cons, beq_eq_false_iff_ne.mpr ht]

theorem untilEnd_drop (h : n ≤ (untilEnd ts).length) :
    untilEnd (ts.drop n) = (untilEnd ts).drop n := by
  induction n generalizing ts with
  | zero => rfl
  | succ n ih =>
    cases ts with
    | nil => rfl
    | cons t ts =>
      by_cases ht : t = .endOfFile
      · simp [ht] at h
      · rw [untilEnd_cons ht, List.length_cons] at h
        rw [untilEnd_cons ht, List.drop_succ_cons, List.drop_succ_cons, ih (by omega)]

theorem take_untilEnd (h : n ≤ (untilEnd ts).length) : (untilEnd ts).take n = ts.take n := by
  calc (untilEnd ts).take n
      = (ts.take (untilEnd ts).length).take n :=
        congrArg (List.take n) (List.prefix_iff_eq_take.mp untilEnd_prefix)
    _ = ts.take n := by rw [List.take_take, Nat.min_eq_left h]

end Token

namespace Cursor

open Token (untilEnd)

def ahead (c : Cursor) : List Token := untilEnd c.rest

/-- The cursor so many tokens further on. -/
def forward (c : Cursor) (n : Nat) : Cursor := ⟨c.position + n, c.rest.drop n⟩

@[simp] theorem position_forward (c : Cursor) (n : Nat) :
    (c.forward n).position = c.position + n := rfl

@[simp] theorem forward_zero (c : Cursor) : c.forward 0 = c := rfl

theorem forward_forward (c : Cursor) (m n : Nat) : (c.forward m).forward n = c.forward (m + n) := by
  simp [forward, Nat.add_assoc]

theorem ahead_forward {c : Cursor} (h : n ≤ c.ahead.length) :
    (c.forward n).ahead = c.ahead.drop n := Token.untilEnd_drop h

-- ---------------------------------------------------------------------------
-- Asking
-- ---------------------------------------------------------------------------

theorem ahead_of_endOfFile {c : Cursor} (h : c.current = .endOfFile) : c.ahead = [] := by
  obtain ⟨position, rest⟩ := c
  cases rest with
  | nil => rfl
  | cons t rest =>
    obtain rfl : t = .endOfFile := h
    rfl

theorem ahead_of_ne {c : Cursor} (h : c.current ≠ .endOfFile) :
    c.ahead = c.current :: (c.forward 1).ahead := by
  obtain ⟨position, rest⟩ := c
  cases rest with
  | nil => exact absurd rfl h
  | cons t rest => exact Token.untilEnd_cons h

theorem current_eq (c : Cursor) : c.current = c.ahead.headD .endOfFile := by
  by_cases h : c.current = .endOfFile
  · rw [ahead_of_endOfFile h, h, List.headD_nil]
  · rw [ahead_of_ne h, List.headD_cons]

theorem isAtEnd_iff {c : Cursor} : c.isAtEnd = true ↔ c.ahead = [] := by
  rw [isAtEnd, beq_iff_eq]
  refine ⟨ahead_of_endOfFile, fun h => ?_⟩
  rw [current_eq, h, List.headD_nil]

theorem ahead_of_not_isAtEnd {c : Cursor} (h : c.isAtEnd = false) :
    c.ahead = c.current :: (c.forward 1).ahead :=
  ahead_of_ne (by simpa [isAtEnd] using h)

-- ---------------------------------------------------------------------------
-- Advancing
-- ---------------------------------------------------------------------------

/-- The reports of passing these tokens, the first of which is at this position. -/
def advances : Nat → List Token → List Event
  | _, [] => []
  | position, t :: ts => .advance position t :: advances (position + 1) ts

theorem advance_of_endOfFile {c : Cursor} (h : c.current = .endOfFile) :
    c.advance = pure (.endOfFile, c) := by
  obtain ⟨position, rest⟩ := c
  cases rest with
  | nil => rfl
  | cons t rest =>
    obtain rfl : t = .endOfFile := h
    rfl

theorem advance_of_ne {c : Cursor} (h : c.current ≠ .endOfFile) :
    c.advance = do
      Traced.emit (.advance c.position c.current)
      return (c.current, c.forward 1) := by
  obtain ⟨position, rest⟩ := c
  cases rest with
  | nil => exact absurd rfl h
  | cons t rest => exact if_neg h

theorem value_advance (c : Cursor) :
    c.advance.value = (c.current, c.forward (min 1 c.ahead.length)) := by
  by_cases h : c.current = .endOfFile
  · simp [advance_of_endOfFile h, ahead_of_endOfFile h, h]
  · simp [advance_of_ne h, ahead_of_ne h]

theorem events_advance (c : Cursor) :
    c.advance.events = advances c.position (c.ahead.take 1) := by
  by_cases h : c.current = .endOfFile
  · simp [advance_of_endOfFile h, ahead_of_endOfFile h, advances]
  · simp [advance_of_ne h, ahead_of_ne h, advances]

theorem advanceBy_spec {c : Cursor} (h : n ≤ c.ahead.length) :
    (c.advanceBy n).value = c.forward n ∧
      (c.advanceBy n).events = advances c.position (c.ahead.take n) := by
  induction n generalizing c with
  | zero => exact ⟨rfl, rfl⟩
  | succ n ih =>
    have hc : c.current ≠ .endOfFile := by
      intro hend
      simp [ahead_of_endOfFile hend] at h
    have hahead := ahead_of_ne hc
    obtain ⟨hvalue, hevents⟩ := ih (c := c.forward 1) (by simpa [hahead] using h)
    simp [advanceBy, advance_of_ne hc, hahead, hvalue, hevents, advances, forward_forward,
      Nat.add_comm]

-- ---------------------------------------------------------------------------
-- Resynchronizing
-- ---------------------------------------------------------------------------

theorem distance_eq (c : Cursor) (recovery : TokenSet) :
    c.distance recovery = (c.ahead.takeWhile (!recovery.contains ·)).length := by
  rw [distance, ahead, untilEnd, List.takeWhile_takeWhile]
  congr 2
  funext t
  simp [stopsAt, Bool.and_comm, bne, Bool.beq_eq_decide_eq]

theorem distance_le (c : Cursor) (recovery : TokenSet) :
    c.distance recovery ≤ c.ahead.length := by
  rw [distance_eq]
  exact (List.takeWhile_prefix _).length_le

theorem isAtEnd_forward {c : Cursor} (h : n ≤ c.ahead.length) :
    (c.forward n).isAtEnd = !decide (n < c.ahead.length) := by
  rw [Bool.eq_iff_iff, isAtEnd_iff, ahead_forward h, List.drop_eq_nil_iff]
  simp

theorem value_synchronize (c : Cursor) (recovery : TokenSet) :
    (c.synchronize recovery).value =
      (decide (c.distance recovery < c.ahead.length), c.forward (c.distance recovery)) := by
  have hle := c.distance_le recovery
  rw [synchronize, Traced.value_bind, (advanceBy_spec hle).1, isAtEnd_forward hle]
  by_cases h : c.distance recovery < c.ahead.length <;> simp [h]

theorem events_synchronize (c : Cursor) (recovery : TokenSet) :
    (c.synchronize recovery).events =
      advances c.position (c.ahead.take (c.distance recovery)) ++
        [if c.distance recovery < c.ahead.length then
          .resynchronized (c.distance recovery) (c.forward (c.distance recovery)).current
        else .reachedEnd (c.distance recovery)] := by
  have hle := c.distance_le recovery
  rw [synchronize, Traced.events_bind, (advanceBy_spec hle).1, (advanceBy_spec hle).2,
    isAtEnd_forward hle]
  by_cases h : c.distance recovery < c.ahead.length <;> simp [h]

-- ---------------------------------------------------------------------------
-- Without what is behind the end
-- ---------------------------------------------------------------------------

/-- The cursor with nothing behind the tokens ahead, not even the end that is stored there. -/
def cut (c : Cursor) : Cursor := ⟨c.position, c.ahead⟩

@[simp] theorem position_cut (c : Cursor) : c.cut.position = c.position := rfl

@[simp] theorem ahead_cut (c : Cursor) : c.cut.ahead = c.ahead :=
  Token.untilEnd_of_notMem Token.endOfFile_notMem_untilEnd

@[simp] theorem current_cut (c : Cursor) : c.cut.current = c.current := by
  rw [current_eq, current_eq, ahead_cut]

@[simp] theorem isAtEnd_cut (c : Cursor) : c.cut.isAtEnd = c.isAtEnd := by
  rw [isAtEnd, isAtEnd, current_cut]

@[simp] theorem isAt_cut (c : Cursor) (s : TokenSet) : c.cut.isAt s = c.isAt s := by
  rw [isAt, isAt, current_cut]

@[simp] theorem distance_cut (c : Cursor) (recovery : TokenSet) :
    c.cut.distance recovery = c.distance recovery := by
  rw [distance_eq, distance_eq, ahead_cut]

theorem forward_cut {c : Cursor} (h : n ≤ c.ahead.length) :
    c.cut.forward n = (c.forward n).cut :=
  congrArg (Cursor.mk (c.position + n)) (ahead_forward h).symm

-- ---------------------------------------------------------------------------
-- The stream of a cursor
-- ---------------------------------------------------------------------------

/-- A cursor over the stream, not past its end. -/
structure Within (ts : List Token) (c : Cursor) : Prop where
  rest_eq : c.rest = ts.drop c.position
  position_le : c.position ≤ (untilEnd ts).length

namespace Within

variable {ts : List Token} {c : Cursor}

theorem ofTokens (ts : List Token) : Within ts (Cursor.ofTokens ts) := ⟨rfl, Nat.zero_le _⟩

theorem ahead_eq (h : Within ts c) : c.ahead = (untilEnd ts).drop c.position := by
  rw [ahead, h.rest_eq, Token.untilEnd_drop h.position_le]

theorem forward (h : Within ts c) (hn : n ≤ c.ahead.length) : Within ts (c.forward n) where
  rest_eq := by simp [Cursor.forward, h.rest_eq]
  position_le := by
    have hle := h.position_le
    rw [h.ahead_eq, List.length_drop] at hn
    rw [position_forward]
    omega

theorem current_eq (h : Within ts c) : c.current = ts.getD c.position .endOfFile := by
  simp [current, h.rest_eq, List.headD_eq_head?_getD]

theorem take_ahead (h : Within ts c) (hn : n ≤ c.ahead.length) :
    c.ahead.take n = (ts.drop c.position).take n := by
  rw [ahead, Token.take_untilEnd hn, h.rest_eq]

theorem position_add_length_ahead (h : Within ts c) :
    c.position + c.ahead.length = ts.idxOf .endOfFile := by
  rw [h.ahead_eq, List.length_drop, Nat.add_sub_cancel' h.position_le, Token.length_untilEnd]

theorem getElem?_ahead (h : Within ts c) (hk : k < c.ahead.length) :
    c.ahead[k]? = ts[c.position + k]? := by
  have hlt : c.position + k < (Token.untilEnd ts).length := by
    rw [Token.length_untilEnd, ← h.position_add_length_ahead]
    exact Nat.add_lt_add_left hk _
  rw [h.ahead_eq, List.getElem?_drop, List.getElem?_eq_getElem hlt]
  exact (List.prefix_iff_getElem?.mp Token.untilEnd_prefix _ hlt).symm

theorem ahead_eq_nil_iff (h : Within ts c) : c.ahead = [] ↔ c.position = ts.idxOf .endOfFile := by
  rw [← h.position_add_length_ahead, ← List.length_eq_zero_iff]
  omega

theorem endOfFile_notMem_take (h : Within ts c) : .endOfFile ∉ ts.take c.position := by
  rw [← Token.take_untilEnd h.position_le]
  exact fun hmem => Token.endOfFile_notMem_untilEnd (List.mem_of_mem_take hmem)

theorem position_le_length (h : Within ts c) : c.position ≤ ts.length :=
  Nat.le_trans h.position_le Token.untilEnd_prefix.length_le

end Within

end Cursor

end Lookahead
