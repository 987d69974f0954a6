import Lookahead.Proofs.Reachable

/-!
# Runs of an iterator

`iter_run_exact`: whatever steps an iterator has taken, what it has passed over and what is still
to come are together the members of its set, in order. From there every step answers as it would on
the plain list of the members to come, so the end is reported only when nothing is left.
-/

namespace Lookahead.TokenSet

namespace Iter

/-- The iterator after a run of steps. -/
def after (it : Iter) : List Step → Iter
  | [] => it
  | step :: steps => (it.step step).2.after steps

/-- The members a step passes over, yielded or skipped. -/
def passes (it : Iter) : Step → List Token
  | .next => (it.take 1).1
  | .nth n => (it.take (n + 1)).1
  | .hint => []
  | .drain => it.drain.1

/-- The members a run of steps passes over. -/
def passed (it : Iter) : List Step → List Token
  | [] => []
  | step :: steps => it.passes step ++ (it.step step).2.passed steps

/-- What a step answers where these members are still to come. -/
def Step.answer (coming : List Token) : Step → Answer
  | .next => .member coming.head?
  | .nth n => .member coming[n]?
  | .hint => .bounds coming.length coming.length
  | .drain => .members coming

/-- How many of the members still to come a step passes over, as far as there are so many. -/
def Step.reach (coming : List Token) : Step → Nat
  | .next => 1
  | .nth n => n + 1
  | .hint => 0
  | .drain => coming.length

theorem after_concat (it : Iter) (steps : List Step) (step : Step) :
    it.after (steps ++ [step]) = ((it.after steps).step step).2 := by
  induction steps generalizing it with
  | nil => rfl
  | cons first steps ih => exact ih _

theorem passed_concat (it : Iter) (steps : List Step) (step : Step) :
    it.passed (steps ++ [step]) = it.passed steps ++ (it.after steps).passes step := by
  induction steps generalizing it with
  | nil => simp [passed, after]
  | cons first steps ih => simp [passed, after, ih]

theorem run_concat (it : Iter) (steps : List Step) (step : Step) :
    it.run (steps ++ [step]) = it.run steps ++ [(it.after steps).step step] := by
  induction steps generalizing it with
  | nil => rfl
  | cons first steps ih => simp [run, after, ih]

-- ---------------------------------------------------------------------------
-- One step
-- ---------------------------------------------------------------------------

theorem nth_eq_take (it : Iter) (n : Nat) :
    it.nth n = ((it.take (n + 1)).1[n]?, (it.take (n + 1)).2) := by
  induction n generalizing it with
  | zero => rcases hnext : it.next with ⟨_ | t, it'⟩ <;> simp [nth, take, hnext]
  | succ n ih =>
    rw [nth, take]
    rcases hnext : it.next with ⟨_ | t, it'⟩ <;> simp [ih]

theorem Yields.rest_eq_zero_iff (h : Yields it ts) : it.rest = 0 ↔ ts = [] := by
  rw [← Bits.positions_eq_nil_iff, h, List.map_eq_nil_iff]

theorem Yields.nth (h : Yields it ts) (n : Nat) :
    ∃ it', it.nth n = (ts[n]?, it') ∧ Yields it' (ts.drop (n + 1)) := by
  obtain ⟨it', htake, h'⟩ := h.take (n + 1)
  refine ⟨it', ?_, h'⟩
  simp [nth_eq_take, htake]

theorem Yields.next (h : Yields it ts) :
    ∃ it', it.next = (ts.head?, it') ∧ Yields it' (ts.drop 1) := by
  simpa [Iter.nth, List.head?_eq_getElem?] using h.nth 0

/-- A step answers as on the list of the members to come and takes what it passes over off it. -/
theorem Yields.step (h : Yields it ts) (step : Step) :
    ∃ it', it.step step = (step.answer ts, it') ∧ it.passes step = ts.take (step.reach ts) ∧
      Yields it' (ts.drop (step.reach ts)) := by
  cases step with
  | next =>
    obtain ⟨it', hnext, h'⟩ := h.next
    obtain ⟨_, htake, -⟩ := h.take 1
    exact ⟨it', by simp [Iter.step, hnext, Step.answer], by simp [passes, htake, Step.reach], h'⟩
  | nth n =>
    obtain ⟨it', hnth, h'⟩ := h.nth n
    obtain ⟨_, htake, -⟩ := h.take (n + 1)
    exact ⟨it', by simp [Iter.step, hnth, Step.answer], by simp [passes, htake, Step.reach], h'⟩
  | hint =>
    exact ⟨it, by simp [Iter.step, h.remaining, Step.answer], by simp [passes, Step.reach], h⟩
  | drain =>
    obtain ⟨it', hdrain, h'⟩ := h.drain
    refine ⟨it', by simp [Iter.step, hdrain, Step.answer], by simp [passes, hdrain, Step.reach], ?_⟩
    simpa [Step.reach] using h'

-- ---------------------------------------------------------------------------
-- A run
-- ---------------------------------------------------------------------------

theorem Yields.run (h : Yields it ts) (steps : List Step) :
    ∃ coming, it.passed steps ++ coming = ts ∧ Yields (it.after steps) coming := by
  induction steps generalizing it ts with
  | nil => exact ⟨ts, rfl, h⟩
  | cons step steps ih =>
    obtain ⟨it', hstep, hpasses, h'⟩ := h.step step
    obtain ⟨coming, hcoming, hafter⟩ := ih h'
    refine ⟨coming, ?_, by simpa [after, hstep] using hafter⟩
    simp [passed, hstep, hpasses, hcoming]

theorem Yields.after_nil (h : Yields it []) (steps : List Step) : Yields (it.after steps) [] := by
  obtain ⟨coming, hcoming, hafter⟩ := h.run steps
  obtain ⟨-, rfl⟩ := List.append_eq_nil_iff.mp hcoming
  exact hafter

end Iter

-- ---------------------------------------------------------------------------
-- Stored segments
-- ---------------------------------------------------------------------------

section
variable {bits : BitVec capacity} {k : Nat}

theorem ne_zero_of_segmentOf (hk : segmentOf bits k ≠ 0) : bits ≠ 0 := by
  rintro rfl
  exact hk (by simp [segmentOf])

theorem toNat_ctz_of_segmentOf (hlow : ∀ j < k, segmentOf bits j = 0)
    (hk : segmentOf bits k ≠ 0) :
    bits.ctz.toNat = segmentBits * k + (segmentOf bits k).ctz.toNat := by
  have hset := BitVec.getLsbD_true_ctz_of_ne_zero hk
  rw [getLsbD_segmentOf, Bool.and_eq_true] at hset
  refine Bits.toNat_ctz_eq hset.2 fun i hi => ?_
  rw [getLsbD_eq_segmentOf]
  rcases Nat.lt_or_ge (i / segmentBits) k with hdiv | hdiv
  · simp [hlow _ hdiv]
  · have hctz := of_decide_eq_true hset.1
    simp only [segmentBits] at hi hdiv hctz ⊢
    obtain rfl : i / 32 = k := by omega
    exact BitVec.getLsbD_false_of_lt_ctz (by omega)

/-- Clearing the lowest bit changes one segment, the lowest that is not zero. -/
theorem segmentOf_and_sub_one (hlow : ∀ j < k, segmentOf bits j = 0) (hk : segmentOf bits k ≠ 0)
    (j : Nat) :
    segmentOf (bits &&& (bits - 1)) j =
      if j = k then segmentOf bits k &&& (segmentOf bits k - 1) else segmentOf bits j := by
  have hctz := toNat_ctz_of_segmentOf hlow hk
  have hlt := BitVec.lt_of_getLsbD (BitVec.getLsbD_true_ctz_of_ne_zero hk)
  apply BitVec.eq_of_getLsbD_eq
  intro i hi
  rw [getLsbD_segmentOf, Bits.getLsbD_and_sub_one _ (ne_zero_of_segmentOf hk), hctz]
  split
  next hjk =>
    rw [Bits.getLsbD_and_sub_one _ hk, getLsbD_segmentOf, hjk]
    simp [hi, bne, Bool.beq_eq_decide_eq]
  next hjk =>
    have hne : segmentBits * j + i ≠ segmentBits * k + (segmentOf bits k).ctz.toNat := by
      simp only [segmentBits]
      omega
    rw [bne_iff_ne.mpr hne, Bool.and_true, getLsbD_segmentOf]

end

theorem Iter.next_eq_of_segmentOf {it : Iter} (hlow : ∀ j < k, segmentOf it.rest j = 0)
    (hk : segmentOf it.rest k ≠ 0) :
    it.next.1 = Token.ofOrdinal? (segmentBits * k + (segmentOf it.rest k).ctz.toNat) ∧
      ∀ j, segmentOf it.next.2.rest j =
        if j = k then segmentOf it.rest k &&& (segmentOf it.rest k - 1)
        else segmentOf it.rest j := by
  rw [next, if_neg (ne_zero_of_segmentOf hk), toNat_ctz_of_segmentOf hlow hk]
  exact ⟨rfl, segmentOf_and_sub_one hlow hk⟩

-- ---------------------------------------------------------------------------
-- Reachable sets
-- ---------------------------------------------------------------------------

/-- Here `it` is the iterator after any run of steps. A set is a value: no step changes it, and a
new iterator yields all of its members again. -/
theorem iter_run_exact (hr : Reachable s) (steps : List Iter.Step) :
    let it := s.iter.after steps
    ∃ coming : List Token,
      (s.iter.passed steps ++ coming).Pairwise (· < ·) ∧
      (∀ t, t ∈ s.iter.passed steps ++ coming ↔ s.contains t = true) ∧
      s.iter.drain.1 = s.iter.passed steps ++ coming ∧
      it.drain.1 = coming ∧
      (∀ step, s.iter.run (steps ++ [step]) =
          s.iter.run steps ++ [(step.answer coming, s.iter.after (steps ++ [step]))] ∧
        s.iter.passed (steps ++ [step]) = s.iter.passed steps ++ coming.take (step.reach coming) ∧
        (s.iter.after (steps ++ [step])).drain.1 = coming.drop (step.reach coming)) ∧
      (∀ n, coming.length ≤ n → it.nth n = (none, ⟨0⟩)) ∧
      (it.next.1 = none → coming = [] ∧ ∀ more, (it.after more).next.1 = none) ∧
      (∀ k, (∀ j < k, segmentOf it.rest j = 0) → segmentOf it.rest k ≠ 0 →
        ∃ t, Token.ofOrdinal? (segmentBits * k + (segmentOf it.rest k).ctz.toNat) = some t ∧
          it.next.1 = some t ∧
          ∀ j, segmentOf it.next.2.rest j =
            if j = k then segmentOf it.rest k &&& (segmentOf it.rest k - 1)
            else segmentOf it.rest j) := by
  intro it
  have hs := hr.consistent
  obtain ⟨coming, hcoming, h⟩ := hs.yields_iter.run steps
  obtain ⟨_, hnext, -⟩ := h.next
  refine ⟨coming, ?_, ?_, ?_, h.fst_drain, ?_, ?_, ?_, ?_⟩
  · exact hcoming ▸ pairwise_toList s
  · intro t
    rw [hcoming]
    exact mem_toList
  · rw [hs.drain_iter, hcoming]
  · intro step
    obtain ⟨it', hstep, hpasses, h'⟩ := h.step step
    rw [Iter.run_concat, Iter.passed_concat, Iter.after_concat, hstep, hpasses]
    exact ⟨rfl, rfl, h'.fst_drain⟩
  · intro n hn
    obtain ⟨⟨rest⟩, hnth, h'⟩ := h.nth n
    obtain rfl : rest = 0 := h'.rest_eq_zero_iff.mpr (List.drop_of_length_le (by omega))
    simpa [hn] using hnth
  · intro hend
    obtain rfl : coming = [] := by simpa [it, hnext] using hend
    exact ⟨rfl, fun more => by rw [(h.after_nil more).next_nil]⟩
  · intro k hlow hk
    obtain ⟨hfst, hclear⟩ := Iter.next_eq_of_segmentOf hlow hk
    have hne : coming ≠ [] := mt h.rest_eq_zero_iff.mpr (ne_zero_of_segmentOf hk)
    obtain ⟨t, ts, rfl⟩ := List.exists_cons_of_ne_nil hne
    have ht : it.next.1 = some t := by rw [hnext]; rfl
    exact ⟨t, hfst ▸ ht, ht, hclear⟩

/-- The middle segment of this set is zero. -/
theorem iter_run_exact_of_tokens :
    let s := ofTokens [.endOfFile, .REPEAT, .AND]
    Reachable s ∧
    s.iter.passed [.next, .nth 0] = [.AND, .REPEAT] ∧
    s.iter.run [.next, .nth 0, .next] = s.iter.run [.next, .nth 0] ++
      [(.member (some .endOfFile), s.iter.after [.next, .nth 0, .next])] ∧
    (s.iter.after [.next, .nth 0]).nth 1 = (none, ⟨0⟩) := by
  intro s
  have hr : Reachable s := .ofTokens _
  obtain ⟨coming, -, -, -, hdrain, hstep, hend, -⟩ := iter_run_exact hr [.next, .nth 0]
  obtain rfl : coming = [.endOfFile] := by
    rw [← hdrain]
    decide +kernel
  exact ⟨hr, by decide +kernel, (hstep .next).1, hend 1 (by decide)⟩

end Lookahead.TokenSet
