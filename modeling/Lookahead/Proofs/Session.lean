import Lookahead.Cursor.Session
import Lookahead.Proofs.Ahead

/-!
# Runs of a session

A run may also go back to any cursor that was saved, as often as it likes, not only to the last one
(`Move`). `after_exact`: wherever a run has taken a cursor, it is within its stream and shows it as
it is there, and what it passes on the way is that stream. `play_terminated`: a stream that is not
ended and the same stream ended, whatever is behind its end, cannot be told apart.
-/

namespace Lookahead.Cursor

inductive Move where
  | step (step : Step)
  /-- Goes back to a saved cursor, the last one being number 0, and keeps all that are saved. -/
  | goBack (k : Nat)
  deriving DecidableEq, Repr

/-- Whether the move may go back. -/
def Move.returns : Move → Bool
  | .step .restore => true
  | .goBack _ => true
  | _ => false

/-- How many tokens the move passes. -/
def Move.reach (c : Cursor) : Move → Nat
  | .step .advance => min 1 c.ahead.length
  | .step (.synchronize recovery) => c.distance recovery
  | _ => 0

/-- What so many advances return, but for the end. -/
def consumed : Nat → Cursor → List Token
  | 0, _ => []
  | n + 1, c =>
    let (t, c) := c.advance.value
    (if t = .endOfFile then [] else [t]) ++ consumed n c

/-- The tokens that the move consumes or skips. -/
def Move.passes (c : Cursor) : Move → List Token
  | .step .advance => c.consumed 1
  | .step (.synchronize recovery) => c.consumed (c.distance recovery)
  | _ => []

namespace Session

def cursors (s : Session) : List Cursor := s.cursor :: s.saved

def move (s : Session) : Move → Traced (Answer × Session)
  | .step step => s.step step
  | .goBack k =>
    match s.saved[k]? with
    | none => return (.nothingSaved, s)
    | some c => return (.saved s.saved.length, { s with cursor := c })

/-- The moves one after the other, each with its answer, the session after it and its reports. -/
def play (s : Session) : List Move → List (Traced (Answer × Session))
  | [] => []
  | m :: moves => s.move m :: (s.move m).value.2.play moves

def after (s : Session) : List Move → Session
  | [] => s
  | m :: moves => (s.move m).value.2.after moves

/-- The tokens that the moves consume or skip. -/
def passed (s : Session) : List Move → List Token
  | [] => []
  | m :: moves => m.passes s.cursor ++ (s.move m).value.2.passed moves

theorem play_concat (s : Session) (moves : List Move) (m : Move) :
    s.play (moves ++ [m]) = s.play moves ++ [(s.after moves).move m] := by
  induction moves generalizing s with
  | nil => rfl
  | cons first moves ih => simp [play, after, ih]

/-- A run of steps is a run of moves. -/
theorem run_eq_play (s : Session) (steps : List Step) :
    (s.run steps).value = (s.play (steps.map .step)).map (·.value) ∧
      (s.run steps).events = (s.play (steps.map .step)).flatMap (·.events) := by
  induction steps generalizing s with
  | nil => exact ⟨rfl, rfl⟩
  | cons step steps ih =>
    obtain ⟨hvalue, hevents⟩ := ih (s.step step).value.2
    simp [run, play, move, hvalue, hevents]

end Session

-- ---------------------------------------------------------------------------
-- One move
-- ---------------------------------------------------------------------------

theorem consumed_eq (c : Cursor) (n : Nat) : c.consumed n = c.ahead.take n := by
  induction n generalizing c with
  | zero => rfl
  | succ n ih =>
    by_cases h : c.current = .endOfFile
    · simp [consumed, advance_of_endOfFile h, ih, ahead_of_endOfFile h]
    · simp [consumed, advance_of_ne h, ih, ahead_of_ne h, h]

namespace Session

theorem reach_le (c : Cursor) (m : Move) : m.reach c ≤ c.ahead.length := by
  unfold Move.reach
  split
  · exact Nat.min_le_right _ _
  · exact c.distance_le _
  · exact Nat.zero_le _

theorem passes_eq (c : Cursor) (m : Move) : m.passes c = c.ahead.take (m.reach c) := by
  unfold Move.passes Move.reach
  split
  · rw [consumed_eq, List.take_eq_take_min]
  · exact c.consumed_eq _
  · rfl

theorem value_advance (s : Session) : (s.step .advance).value =
    (.token s.cursor.current, ⟨s.cursor.forward (min 1 s.cursor.ahead.length), s.saved⟩) := by
  simp [step, Cursor.value_advance]

theorem value_synchronize (s : Session) (recovery : TokenSet) :
    (s.step (.synchronize recovery)).value =
      (.flag (decide (s.cursor.distance recovery < s.cursor.ahead.length)),
        ⟨s.cursor.forward (s.cursor.distance recovery), s.saved⟩) := by
  simp [step, Cursor.value_synchronize]

/-- Nothing is saved but the cursor, and the cursor goes forward unless the move returns. -/
theorem move_cases (s : Session) (m : Move) :
    (s.move m).value.2.saved ⊆ s.cursors ∧
      ((s.move m).value.2.cursor = s.cursor.forward (m.reach s.cursor) ∨
        m.returns = true ∧ (s.move m).value.2.cursor ∈ s.cursors) := by
  obtain ⟨c, saved⟩ := s
  have hkept : saved ⊆ cursors ⟨c, saved⟩ := List.subset_cons_self _ _
  cases m with
  | step step =>
    cases step with
    | advance =>
      rw [move, value_advance]
      exact ⟨hkept, .inl rfl⟩
    | synchronize recovery =>
      rw [move, value_synchronize]
      exact ⟨hkept, .inl rfl⟩
    | save => exact ⟨List.Subset.refl _, .inl rfl⟩
    | restore =>
      cases saved with
      | nil => exact ⟨hkept, .inl rfl⟩
      | cons last saved =>
        exact ⟨fun _ h => hkept (List.mem_cons_of_mem _ h), .inr ⟨rfl, hkept List.mem_cons_self⟩⟩
    | current | position | atEnd | isAt => exact ⟨hkept, .inl rfl⟩
  | goBack k =>
    rw [move]
    split
    · exact ⟨hkept, .inl rfl⟩
    next found hk => exact ⟨hkept, .inr ⟨rfl, hkept (List.mem_of_getElem? hk)⟩⟩

theorem cursor_move (s : Session) (h : m.returns = false) :
    (s.move m).value.2.cursor = s.cursor.forward (m.reach s.cursor) := by
  simpa [h] using (s.move_cases m).2

-- ---------------------------------------------------------------------------
-- A run of moves
-- ---------------------------------------------------------------------------

section
variable {ts : List Token} {s : Session}

theorem within_move (h : ∀ c ∈ s.cursors, Within ts c) (m : Move) :
    ∀ c ∈ (s.move m).value.2.cursors, Within ts c := by
  obtain ⟨hsaved, hcursor⟩ := s.move_cases m
  intro c hc
  rcases List.mem_cons.mp hc with rfl | hc
  · rcases hcursor with hforward | ⟨-, hback⟩
    · rw [hforward]
      exact (h _ List.mem_cons_self).forward (reach_le s.cursor m)
    · exact h _ hback
  · exact h _ (hsaved hc)

theorem within_after (h : ∀ c ∈ s.cursors, Within ts c) (moves : List Move) :
    ∀ c ∈ (s.after moves).cursors, Within ts c := by
  induction moves generalizing s with
  | nil => exact h
  | cons m moves ih => exact ih (within_move h m)

theorem within_ofTokens (ts : List Token) (moves : List Move) :
    ∀ c ∈ ((Session.ofTokens ts).after moves).cursors, Within ts c := by
  refine within_after (fun c hc => ?_) moves
  obtain rfl := List.mem_singleton.mp hc
  exact .ofTokens ts

/-- As long as nothing returns, the cursor goes forward over what it passes. -/
theorem after_forward (s : Session) {moves : List Move} (h : ∀ m ∈ moves, m.returns = false) :
    ∃ n ≤ s.cursor.ahead.length, (s.after moves).cursor = s.cursor.forward n ∧
      s.passed moves = s.cursor.ahead.take n := by
  induction moves generalizing s with
  | nil => exact ⟨0, Nat.zero_le _, rfl, rfl⟩
  | cons m moves ih =>
    have hm := s.cursor_move (h m List.mem_cons_self)
    have hreach := reach_le s.cursor m
    obtain ⟨n, hn, hafter, hpassed⟩ :=
      ih (s.move m).value.2 fun m' hm' => h m' (List.mem_cons_of_mem m hm')
    rw [hm] at hn hafter hpassed
    rw [ahead_forward hreach] at hn hpassed
    rw [List.length_drop] at hn
    refine ⟨m.reach s.cursor + n, by omega, by rw [after, hafter, forward_forward], ?_⟩
    rw [passed, hpassed, passes_eq, List.take_add]

end

theorem after_exact (ts : List Token) (moves : List Move) :
    let s := (Session.ofTokens ts).after moves
    let here := s.cursor.position
    let last := ts.idxOf .endOfFile
    (∀ m, (Session.ofTokens ts).play (moves ++ [m]) =
      (Session.ofTokens ts).play moves ++ [s.move m]) ∧
    (∀ c ∈ s.cursors, c.position ≤ ts.length ∧ .endOfFile ∉ ts.take c.position ∧
      c.current = ts.getD c.position .endOfFile ∧
      (c.isAtEnd = true ↔ c.position = last)) ∧
    (∃ c, (s.move (.step .advance)).value =
        (.token (ts.getD here .endOfFile), { s with cursor := c }) ∧
      c.position = if ts.getD here .endOfFile = .endOfFile then here else here + 1) ∧
    ∀ stretch, (∀ m ∈ stretch, m.returns = false) →
      let there := (s.after stretch).cursor.position
      here ≤ there ∧ s.passed stretch = (ts.drop here).take (there - here) ∧
      (here = last → (s.after stretch).cursor = s.cursor) := by
  intro s here last
  have hwithin := within_ofTokens ts moves
  have hs : Within ts s.cursor := hwithin _ List.mem_cons_self
  refine ⟨fun m => play_concat _ _ _, ?_, ?_, ?_⟩
  · intro c hc
    have h := hwithin c hc
    exact ⟨h.position_le_length, h.endOfFile_notMem_take, h.current_eq,
      isAtEnd_iff.trans h.ahead_eq_nil_iff⟩
  · refine ⟨s.cursor.forward (min 1 s.cursor.ahead.length), ?_, ?_⟩
    · rw [move, value_advance, hs.current_eq]
    · rw [← hs.current_eq, position_forward]
      by_cases hend : s.cursor.current = .endOfFile
      · simp [hend, ahead_of_endOfFile hend, here]
      · simp [hend, ahead_of_ne hend, here]
  · intro stretch hstretch there
    obtain ⟨n, hn, hafter, hpassed⟩ := s.after_forward hstretch
    have hthere : there = here + n := congrArg Cursor.position hafter
    refine ⟨by omega, ?_, fun hlast => ?_⟩
    · rw [hpassed, hs.take_ahead hn, hthere, Nat.add_sub_cancel_left]
    · rw [hs.ahead_eq_nil_iff.mpr hlast, List.length_nil, Nat.le_zero] at hn
      rw [hafter, hn, forward_zero]

/-- Back at the start, and then up to the first of two ends. -/
theorem after_exact_of_tokens :
    let stream : List Token := [.unknown, .semicolon, .endOfFile, .END]
    let s := (Session.ofTokens stream).after
      [.step .save, .step (.synchronize (.ofTokens [.END])), .goBack 0]
    let stretch : List Move := [.step .advance, .step (.synchronize (.ofTokens [.endOfFile]))]
    (∀ m ∈ stretch, m.returns = false) ∧ s.cursor.position = 0 ∧
      s.passed stretch = [.unknown, .semicolon] ∧ (s.after stretch).cursor.position = 2 := by
  intro stream s stretch
  have hstretch : ∀ m ∈ stretch, m.returns = false := by decide
  obtain ⟨-, -, -, hrun⟩ := after_exact stream
    [.step .save, .step (.synchronize (.ofTokens [.END])), .goBack 0]
  refine ⟨hstretch, by decide +kernel, ?_, by decide +kernel⟩
  exact (hrun stretch hstretch).2.1.trans (by decide +kernel)

-- ---------------------------------------------------------------------------
-- Streams without an end
-- ---------------------------------------------------------------------------

def cut (s : Session) : Session := ⟨s.cursor.cut, s.saved.map Cursor.cut⟩

/-- What a move lets see: its answer, the position and the lookahead token after it, and what it
reports. -/
def shown (m : Traced (Answer × Session)) : Answer × Nat × Token × List Event :=
  (m.value.1, m.value.2.cursor.position, m.value.2.cursor.current, m.events)

theorem value_move_cut (s : Session) (m : Move) :
    (s.cut.move m).value = ((s.move m).value.1, (s.move m).value.2.cut) := by
  obtain ⟨c, saved⟩ := s
  cases m with
  | step step =>
    cases step with
    | advance =>
      have hforward := forward_cut (c := c) (Nat.min_le_right 1 c.ahead.length)
      simp [move, value_advance, cut, hforward]
    | synchronize recovery =>
      have hforward := forward_cut (c.distance_le recovery)
      simp [move, value_synchronize, cut, hforward]
    | restore => cases saved <;> simp [move, step, cut]
    | current | position | atEnd | isAt | save => simp [move, step, cut]
  | goBack k => cases hk : saved[k]? <;> simp [move, cut, hk]

theorem events_move_cut (s : Session) (m : Move) : (s.cut.move m).events = (s.move m).events := by
  obtain ⟨c, saved⟩ := s
  cases m with
  | step step =>
    cases step with
    | advance => simp [move, step, cut, events_advance]
    | synchronize recovery =>
      have hforward := forward_cut (c.distance_le recovery)
      simp [move, step, cut, events_synchronize, hforward]
    | restore => cases saved <;> rfl
    | current | position | atEnd | isAt | save => rfl
  | goBack k => cases hk : saved[k]? <;> simp [move, cut, hk]

theorem shown_move_cut (s : Session) (m : Move) : shown (s.cut.move m) = shown (s.move m) := by
  rw [shown, value_move_cut, events_move_cut]
  simp [shown, cut]

theorem play_cut (s : Session) (moves : List Move) :
    (s.cut.play moves).map shown = (s.play moves).map shown := by
  induction moves generalizing s with
  | nil => rfl
  | cons m moves ih =>
    rw [play, play, List.map_cons, List.map_cons, shown_move_cut, value_move_cut, ih]

theorem cut_ofTokens_append (h : .endOfFile ∉ ts) (zs : List Token) :
    (Session.ofTokens (ts ++ .endOfFile :: zs)).cut = Session.ofTokens ts := by
  have hahead : (Cursor.ofTokens (ts ++ .endOfFile :: zs)).cut = Cursor.ofTokens ts :=
    congrArg (Cursor.mk 0) (Token.untilEnd_append_endOfFile h zs)
  simp [cut, Session.ofTokens, hahead]

/-- Move by move the two streams show the same, and so a run of steps over the one and over the
other gives the same answers and reports. -/
theorem play_terminated (h : .endOfFile ∉ ts) (zs : List Token) :
    (∀ moves, ((Session.ofTokens (ts ++ .endOfFile :: zs)).play moves).map shown =
      ((Session.ofTokens ts).play moves).map shown) ∧
    ∀ steps,
      (((Session.ofTokens (ts ++ .endOfFile :: zs)).run steps).value.map fun (answer, s) =>
          (answer, s.cursor.position, s.cursor.current)) =
        (((Session.ofTokens ts).run steps).value.map fun (answer, s) =>
          (answer, s.cursor.position, s.cursor.current)) ∧
      ((Session.ofTokens (ts ++ .endOfFile :: zs)).run steps).events =
        ((Session.ofTokens ts).run steps).events := by
  have hplay (moves : List Move) : ((Session.ofTokens (ts ++ .endOfFile :: zs)).play moves).map
      shown = ((Session.ofTokens ts).play moves).map shown := by
    rw [← play_cut, cut_ofTokens_append h]
  refine ⟨hplay, fun steps => ?_⟩
  have hshown := hplay (steps.map .step)
  obtain ⟨hvalue, hevents⟩ := run_eq_play (Session.ofTokens ts) steps
  obtain ⟨hvalue', hevents'⟩ := run_eq_play (Session.ofTokens (ts ++ .endOfFile :: zs)) steps
  rw [hvalue, hvalue', hevents, hevents']
  constructor
  · have h := congrArg (List.map fun x => (x.1, x.2.1, x.2.2.1)) hshown
    simpa [shown, Function.comp_def] using h
  · have h := congrArg (List.flatMap fun x => x.2.2.2) hshown
    simpa [shown, List.flatMap_map] using h

/-- A recovery set that holds `endOfFile`, and tokens behind the end. -/
theorem play_terminated_of_tokens :
    let recovery := TokenSet.ofTokens [.endOfFile, .END]
    .endOfFile ∉ ([.unknown, .semicolon] : List Token) ∧
    ((Session.ofTokens [.unknown, .semicolon, .endOfFile, .END]).play
        [.step .save, .step (.synchronize recovery), .step (.isAt recovery), .goBack 0]).map shown =
      [(.saved 1, 0, .unknown, []),
       (.flag false, 2, .endOfFile,
        [.advance 0 .unknown, .advance 1 .semicolon, .reachedEnd 2]),
       (.flag true, 2, .endOfFile, []),
       (.saved 1, 0, .unknown, [])] := by
  intro recovery
  have h : .endOfFile ∉ ([.unknown, .semicolon] : List Token) := by decide
  refine ⟨h, ((play_terminated h [.END]).1 _).trans ?_⟩
  decide +kernel

end Session

end Lookahead.Cursor
