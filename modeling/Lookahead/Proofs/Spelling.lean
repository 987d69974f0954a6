import Lookahead.Proofs.Layout
import Lookahead.Proofs.Numeral

/-!
# Words and their spellings

A segment is spelled in hexadecimal after `0x` or `0X`, and the element count
in decimal. `readWords_eq_ok_iff` and `readWords_eq_error_iff` say that reading
takes words so spelled and refuses the first that is not.
-/

namespace Lookahead

namespace Text

theorem IsDigit.solid (h : IsDigit base c d) (hb : base ≤ 16) : isBlank c = false ∧ c ≠ ',' := by
  have hall : ∀ e < 16, (isBlank e.digitChar = false ∧ e.digitChar ≠ ',') ∧
      (isBlank e.digitChar.toUpper = false ∧ e.digitChar.toUpper ≠ ',') := by
    decide
  obtain ⟨hd, rfl | rfl⟩ := h
  · exact (hall d (by omega)).1
  · exact (hall d (by omega)).2

theorem IsLower.solid (h : IsLower base c) (hb : base ≤ 16) : isBlank c = false ∧ c ≠ ',' := by
  obtain ⟨d, hd, rfl⟩ := h
  exact (isDigit_digitChar hd).solid hb

theorem Digits.solid (h : Digits base cs n) (hb : base ≤ 16) :
    ∀ c ∈ cs, isBlank c = false ∧ c ≠ ',' := by
  induction h with
  | one hd => simpa using hd.solid hb
  | more _ hd ih =>
    intro c hc
    rcases List.mem_append.mp hc with hc | hc
    · exact ih c hc
    · obtain rfl := List.mem_singleton.mp hc
      exact hd.solid hb

theorem Numeral.solid (h : Numeral base cs n) (hb : base ≤ 16) :
    ∀ c ∈ cs, isBlank c = false ∧ c ≠ ',' := by
  cases h with
  | plain h => exact h.solid hb
  | signed h => simpa using ⟨by decide, h.solid hb⟩

theorem Numeral.ne_nil (h : Numeral base cs n) : cs ≠ [] := by
  cases h with
  | plain h => exact h.ne_nil
  | signed _ => exact List.cons_ne_nil _ _

end Text

namespace TokenSet

open Text

-- ---------------------------------------------------------------------------
-- Single words
-- ---------------------------------------------------------------------------

inductive SegmentSpelling : List Char → Word → Prop
  | lower {w : Word} : Numeral 16 ds w.toNat → SegmentSpelling ('0' :: 'x' :: ds) w
  | upper {w : Word} : Numeral 16 ds w.toNat → SegmentSpelling ('0' :: 'X' :: ds) w

def CountSpelling (cs : List Char) (w : Word) : Prop := Numeral 10 cs w.toNat

/-- The place of a word tells what it is. -/
def Spelling (position : Nat) (cs : List Char) (w : Word) : Prop :=
  if position < segmentCount then SegmentSpelling cs w else CountSpelling cs w

theorem segmentWord?_eq_some_iff : segmentWord? cs = some w ↔ SegmentSpelling cs w := by
  constructor
  · intro h
    unfold segmentWord? at h
    split at h
    · exact .lower ((word?_eq_some_iff (by simp)).mp h)
    · exact .upper ((word?_eq_some_iff (by simp)).mp h)
    · cases h
  · rintro (h | h) <;> exact (word?_eq_some_iff (by simp)).mpr h

theorem readWord_eq_some_iff {w : Word} :
    (if position < segmentCount then segmentWord? cs else countWord? cs) = some w ↔
      Spelling position cs w := by
  unfold Spelling
  split
  · exact segmentWord?_eq_some_iff
  · exact word?_eq_some_iff (by simp)

theorem SegmentSpelling.solid (h : SegmentSpelling cs w) : Solid cs := by
  refine ⟨by cases h <;> simp, ?_⟩
  cases h with
  | lower h => simpa using ⟨by decide, by decide, h.solid (by simp)⟩
  | upper h => simpa using ⟨by decide, by decide, h.solid (by simp)⟩

theorem Spelling.solid (h : Spelling position cs w) : Solid cs := by
  unfold Spelling at h
  split at h
  · exact h.solid
  · exact ⟨h.ne_nil, Numeral.solid h (by simp)⟩

-- ---------------------------------------------------------------------------
-- Lists of words
-- ---------------------------------------------------------------------------

/-- The words from a position on, and what they spell. -/
inductive Spelled : Nat → List (List Char) → List Word → Prop
  | nil : Spelled position [] []
  | cons : Spelling position cs w → Spelled (position + 1) rest raw →
      Spelled position (cs :: rest) (w :: raw)

theorem readWords_eq_ok_iff : readWords position ws = .ok raw ↔ Spelled position ws raw := by
  induction ws generalizing position raw with
  | nil =>
    constructor
    · intro h; cases h; exact .nil
    · rintro ⟨⟩; rfl
  | cons cs rest ih =>
    rw [readWords]
    constructor
    · intro h
      split at h
      · cases h
      next w hw =>
      cases hrest : readWords (position + 1) rest with
      | error e => rw [hrest] at h; cases h
      | ok raw =>
        rw [hrest] at h
        cases h
        exact .cons (readWord_eq_some_iff.mp hw) (ih.mp hrest)
    · rintro (_ | ⟨hw, hrest⟩)
      rw [readWord_eq_some_iff.mpr hw, ih.mpr hrest]
      rfl

theorem Spelled.length_eq (h : Spelled position ws raw) : ws.length = raw.length := by
  induction h with
  | nil => rfl
  | cons _ _ ih => simp [ih]

theorem Spelled.solid (h : Spelled position ws raw) : ∀ cs ∈ ws, Solid cs := by
  induction h with
  | nil => simp
  | cons hw _ ih => simpa using ⟨hw.solid, ih⟩

theorem spelled_iff : Spelled 0 ws [low, mid, high, n] ↔
    ∃ w₀ w₁ w₂ w₃, ws = [w₀, w₁, w₂, w₃] ∧ SegmentSpelling w₀ low ∧ SegmentSpelling w₁ mid ∧
      SegmentSpelling w₂ high ∧ CountSpelling w₃ n := by
  constructor
  · rintro (_ | ⟨h0, _ | ⟨h1, _ | ⟨h2, _ | ⟨h3, ⟨⟩⟩⟩⟩⟩)
    exact ⟨_, _, _, _, rfl, h0, h1, h2, h3⟩
  · rintro ⟨w₀, w₁, w₂, w₃, rfl, h0, h1, h2, h3⟩
    exact .cons h0 (.cons h1 (.cons h2 (.cons h3 .nil)))

/-- The word at a place does not spell anything there. -/
def MalformedAt (start : Nat) (ws : List (List Char)) (k : Nat) : Prop :=
  ∃ cs, ws[k]? = some cs ∧ ∀ w, ¬ Spelling (start + k) cs w

theorem malformedAt_zero :
    MalformedAt start (cs :: rest) 0 ↔ ∀ w, ¬ Spelling start cs w := by
  simp [MalformedAt]

theorem malformedAt_succ :
    MalformedAt start (cs :: rest) (k + 1) ↔ MalformedAt (start + 1) rest k := by
  simp only [MalformedAt, List.getElem?_cons_succ, Nat.add_assoc, Nat.add_comm 1 k]

theorem readWords_eq_error_iff : readWords start ws = .error e ↔
    ∃ k, e = .malformedWord (start + k) ∧ MalformedAt start ws k ∧
      ∀ j < k, ¬ MalformedAt start ws j := by
  induction ws generalizing start with
  | nil => simp [readWords, MalformedAt]
  | cons cs rest ih =>
    rw [readWords]
    split
    next hnone =>
      have hbad : MalformedAt start (cs :: rest) 0 := by
        refine malformedAt_zero.mpr fun w hw => ?_
        rw [readWord_eq_some_iff.mpr hw] at hnone
        cases hnone
      constructor
      · intro h
        cases h
        exact ⟨0, rfl, hbad, by simp⟩
      · rintro ⟨k, rfl, -, hleast⟩
        cases k with
        | zero => rfl
        | succ k => exact absurd hbad (hleast 0 k.succ_pos)
    next w hw =>
      have hgood : ¬ MalformedAt start (cs :: rest) 0 := fun h =>
        malformedAt_zero.mp h w (readWord_eq_some_iff.mp hw)
      have hmap : (readWords (start + 1) rest).map (w :: ·) = .error e ↔
          readWords (start + 1) rest = .error e := by
        cases readWords (start + 1) rest <;> simp [Except.map]
      rw [hmap, ih]
      constructor
      · rintro ⟨k, rfl, hk, hleast⟩
        refine ⟨k + 1, by rw [Nat.add_assoc, Nat.add_comm 1 k], malformedAt_succ.mpr hk, ?_⟩
        intro j hj
        cases j with
        | zero => exact hgood
        | succ j => exact fun h => hleast j (Nat.lt_of_succ_lt_succ hj) (malformedAt_succ.mp h)
      · rintro ⟨k, rfl, hk, hleast⟩
        cases k with
        | zero => exact absurd hk hgood
        | succ k =>
          refine ⟨k, by rw [Nat.add_assoc, Nat.add_comm 1 k], malformedAt_succ.mp hk, ?_⟩
          intro j hj h
          exact hleast (j + 1) (Nat.succ_lt_succ hj) (malformedAt_succ.mpr h)

end TokenSet

end Lookahead
