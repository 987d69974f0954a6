import Lookahead.Proofs.Recovery
import Lookahead.Proofs.Session

/-!
# The log of a cursor

Every token that is passed is reported, with its place, and nothing else is reported as passed. So
the places that a log names run from where a cursor was to where it is, as long as it does not go
back, and the last line on a resynchronization counts those before it: `log_reconstructs`.
-/

namespace Lookahead

namespace Event

/-- A line of the log. -/
structure Record where
  level : Level
  message : String
  fields : List (String × Value)
  deriving DecidableEq, Repr

def record (e : Event) : Record := ⟨e.level, e.message, e.fields⟩

/-- Whether the report is of a token that is passed. -/
def isPassing (e : Event) : Bool := e.message == "advance"

def Record.passed (position : Nat) (t : Token) : Record :=
  ⟨.trace, "advance", [("pos", .number position), ("token", .text t.name)]⟩

def Record.found (skipped : Nat) (t : Token) : Record :=
  ⟨.debug, "resynchronized", [("skipped", .number skipped), ("at", .text t.name)]⟩

def Record.ended (skipped : Nat) : Record :=
  ⟨.debug, "resync reached end of file", [("skipped", .number skipped)]⟩

/-- The lines on passing the tokens of a stream from one place to another. -/
def Record.passedFrom (ts : List Token) (here there : Nat) : List Record :=
  (List.range' here (there - here)).map fun i => .passed i (ts.getD i .endOfFile)

theorem Record.length_passedFrom (ts : List Token) (here there : Nat) :
    (passedFrom ts here there).length = there - here := by
  simp [passedFrom]

theorem Record.passedFrom_self (ts : List Token) (here : Nat) : passedFrom ts here here = [] := by
  simp [passedFrom]

theorem Record.passedFrom_succ (ts : List Token) (here : Nat) :
    passedFrom ts here (here + 1) = [.passed here (ts.getD here .endOfFile)] := by
  simp [passedFrom]

end Event

open Event (Record isPassing record)

/-- What a computation adds to the log. -/
def Traced.log (m : Traced α) : List Record := m.events.map record

namespace Cursor

theorem advances_append (position : Nat) (ts us : List Token) :
    advances position (ts ++ us) = advances position ts ++ advances (position + ts.length) us := by
  induction ts generalizing position with
  | nil => rfl
  | cons t ts ih => simp [advances, ih, Nat.add_assoc, Nat.add_comm 1]

theorem filter_advances (position : Nat) (ts : List Token) :
    (advances position ts).filter isPassing = advances position ts := by
  induction ts generalizing position with
  | nil => rfl
  | cons t ts ih => rw [advances, List.filter_cons_of_pos rfl, ih]

/-- The lines on passing so many tokens ahead, as they stand in the stream. -/
theorem Within.map_record_advances {ts : List Token} {c : Cursor} (h : Within ts c)
    (hn : n ≤ c.ahead.length) :
    (advances c.position (c.ahead.take n)).map record =
      Record.passedFrom ts c.position (c.position + n) := by
  rw [Record.passedFrom, Nat.add_sub_cancel_left]
  induction n generalizing c with
  | zero => rfl
  | succ n ih =>
    have hne : c.current ≠ .endOfFile := by
      intro hend
      simp [ahead_of_endOfFile hend] at hn
    have hahead := ahead_of_ne hne
    have hforward : Within ts (c.forward 1) := h.forward (by simp [hahead])
    have hrest := ih hforward (by simpa [hahead] using hn)
    rw [hahead, List.take_succ_cons, advances, List.map_cons, List.range'_succ, List.map_cons,
      ← position_forward, hrest, h.current_eq]
    rfl

namespace Session

-- ---------------------------------------------------------------------------
-- One move
-- ---------------------------------------------------------------------------

theorem events_advance (s : Session) :
    (s.move (.step .advance)).events = advances s.cursor.position (s.cursor.ahead.take 1) := by
  simp [move, step, Cursor.events_advance]

theorem events_synchronize (s : Session) (recovery : TokenSet) :
    (s.move (.step (.synchronize recovery))).events = (s.cursor.synchronize recovery).events := by
  simp [move, step]

theorem events_of_ne (s : Session) (hadvance : m ≠ .step .advance)
    (hsync : ∀ recovery, m ≠ .step (.synchronize recovery)) : (s.move m).events = [] := by
  obtain ⟨c, saved⟩ := s
  cases m with
  | step step =>
    cases step with
    | advance => exact absurd rfl hadvance
    | synchronize recovery => exact absurd rfl (hsync recovery)
    | restore => cases saved <;> rfl
    | current | position | atEnd | isAt | save => rfl
  | goBack k =>
    rw [move]
    split <;> rfl

/-- Of each token that a move passes there is one report, and no other report is of a token that is
passed. -/
theorem filter_events_move (s : Session) (m : Move) :
    (s.move m).events.filter isPassing = advances s.cursor.position (m.passes s.cursor) := by
  by_cases hadvance : m = .step .advance
  · rw [hadvance, events_advance, filter_advances, Move.passes, consumed_eq]
  by_cases hsync : ∃ recovery, m = .step (.synchronize recovery)
  · obtain ⟨recovery, rfl⟩ := hsync
    rw [events_synchronize, Cursor.events_synchronize, List.filter_append, filter_advances,
      Move.passes, consumed_eq, List.append_right_eq_self]
    split <;> rfl
  · have hsync := not_exists.mp hsync
    rw [s.events_of_ne hadvance hsync, List.filter_nil]
    have hpasses : m.passes s.cursor = [] := by
      unfold Move.passes
      split
      · exact absurd rfl hadvance
      · exact absurd rfl (hsync _)
      · rfl
    rw [hpasses, advances]

-- ---------------------------------------------------------------------------
-- A run of moves
-- ---------------------------------------------------------------------------

theorem filter_events_play (s : Session) {moves : List Move}
    (h : ∀ m ∈ moves, m.returns = false) :
    ((s.play moves).flatMap (·.events)).filter isPassing =
      advances s.cursor.position (s.passed moves) := by
  induction moves generalizing s with
  | nil => rfl
  | cons m moves ih =>
    have hm := s.cursor_move (h m List.mem_cons_self)
    have hlength : (m.passes s.cursor).length = m.reach s.cursor := by
      rw [passes_eq, List.length_take_of_le (reach_le s.cursor m)]
    rw [play, List.flatMap_cons, List.filter_append, filter_events_move,
      ih _ fun m' hm' => h m' (List.mem_cons_of_mem m hm'), hm, passed, advances_append, hlength,
      position_forward]

-- ---------------------------------------------------------------------------
-- Lines
-- ---------------------------------------------------------------------------

theorem log_run (s : Session) (steps : List Step) :
    (s.run steps).log = (s.play (steps.map .step)).flatMap (·.log) := by
  rw [Traced.log, (run_eq_play s steps).2, List.map_flatMap]
  rfl

section
variable {ts : List Token} {s : Session} (h : Within ts s.cursor)
include h

theorem log_advance :
    (s.move (.step .advance)).log =
      Record.passedFrom ts s.cursor.position (s.move (.step .advance)).value.2.cursor.position := by
  rw [Traced.log, events_advance, List.take_eq_take_min,
    h.map_record_advances (Nat.min_le_right _ _), move, value_advance, position_forward]

theorem log_synchronize {recovery : TokenSet} {result : Bool × Cursor}
    (hresult : (s.cursor.synchronize recovery).value = result) :
    let lines := Record.passedFrom ts s.cursor.position result.2.position
    (s.move (.step (.synchronize recovery))).log = lines ++ [if result.1 then
      .found lines.length result.2.current else .ended lines.length] := by
  have hle := s.cursor.distance_le recovery
  rw [Cursor.value_synchronize] at hresult
  subst hresult
  intro lines
  have hlines : lines.length = s.cursor.distance recovery := by
    rw [Record.length_passedFrom, position_forward, Nat.add_sub_cancel_left]
  rw [hlines, Traced.log, events_synchronize, Cursor.events_synchronize, List.map_append,
    h.map_record_advances hle, List.map_singleton, apply_ite record]
  simp only [decide_eq_true_eq]
  rfl

theorem filter_log_play {moves : List Move} (hmoves : ∀ m ∈ moves, m.returns = false) :
    ((s.play moves).flatMap (·.log)).filter (·.message == "advance") =
      Record.passedFrom ts s.cursor.position (s.after moves).cursor.position := by
  obtain ⟨n, hn, hafter, hpassed⟩ := s.after_forward hmoves
  have hlog : (s.play moves).flatMap (·.log) = ((s.play moves).flatMap (·.events)).map record := by
    rw [List.map_flatMap]
    rfl
  rw [hlog, List.filter_map, hafter, position_forward, ← h.map_record_advances hn, ← hpassed,
    ← filter_events_play s hmoves]
  rfl

end

theorem log_reconstructs (ts : List Token) (moves : List Move) :
    let s := (Session.ofTokens ts).after moves
    let here := s.cursor.position
    (∀ steps, (s.run steps).log = (s.play (steps.map .step)).flatMap (·.log)) ∧
    (∀ m, m ≠ .step .advance → (∀ recovery, m ≠ .step (.synchronize recovery)) →
      (s.move m).log = []) ∧
    (let there := (s.move (.step .advance)).value.2.cursor.position
     there ≤ here + 1 ∧ (s.move (.step .advance)).log =
      if there = here then [] else [.passed here (ts.getD here .endOfFile)]) ∧
    (∀ stretch, (∀ m ∈ stretch, m.returns = false) →
      let there := (s.after stretch).cursor.position
      here ≤ there ∧ ((s.play stretch).flatMap (·.log)).filter (·.message == "advance") =
        Record.passedFrom ts here there) ∧
    ∀ recovery, ∃ found c,
      (s.move (.step (.synchronize recovery))).value = (.flag found, { s with cursor := c }) ∧
      let passed := Record.passedFrom ts here c.position
      (s.move (.step (.synchronize recovery))).log =
        passed ++ [if found then .found passed.length c.current else .ended passed.length] := by
  intro s here
  have hs : Within ts s.cursor := within_ofTokens ts moves _ List.mem_cons_self
  refine ⟨s.log_run, fun m => ?_, ?_, fun stretch => ?_, fun recovery => ?_⟩
  · intro hadvance hsync
    rw [Traced.log, s.events_of_ne hadvance hsync, List.map_nil]
  · intro there
    have hthere : there = here + min 1 s.cursor.ahead.length := by
      simp only [there, here, move, value_advance, position_forward]
    rw [log_advance hs]
    change there ≤ here + 1 ∧ Record.passedFrom ts here there = _
    rcases Nat.eq_zero_or_pos s.cursor.ahead.length with hend | hahead
    · have heq : there = here := by omega
      rw [heq, if_pos rfl, Record.passedFrom_self]
      exact ⟨Nat.le_succ here, rfl⟩
    · have heq : there = here + 1 := by omega
      rw [heq, if_neg (Nat.succ_ne_self here), Record.passedFrom_succ]
      exact ⟨Nat.le_refl _, rfl⟩
  · intro hstretch there
    obtain ⟨n, -, hafter, -⟩ := s.after_forward hstretch
    have hthere : there = here + n := congrArg Cursor.position hafter
    exact ⟨by omega, filter_log_play hs hstretch⟩
  · exact ⟨_, _, rfl, log_synchronize hs rfl⟩

/-- Of a run that goes back, two stretches over the same tokens. -/
theorem log_reconstructs_of_tokens :
    let stream : List Token := [.unknown, .semicolon, .endOfFile, .END]
    let recovery := TokenSet.ofTokens [.semicolon]
    let s := (Session.ofTokens stream).after
      [.step .save, .step .advance, .step (.synchronize recovery), .goBack 0]
    let stretch : List Move := [.step (.synchronize recovery), .step (.isAt recovery),
      .step .advance, .step .advance, .step (.synchronize recovery)]
    (∀ m ∈ stretch, m.returns = false) ∧
    ((s.play stretch).flatMap (·.log)).filter (·.message == "advance") =
      [.passed 0 .unknown, .passed 1 .semicolon] ∧
    (s.move (.step .save)).log = [] ∧
    (s.move (.step (.synchronize recovery))).log = [.passed 0 .unknown, .found 1 .semicolon] := by
  intro stream recovery s stretch
  obtain ⟨-, hquiet, -, hstretch, hsync⟩ := log_reconstructs stream
    [.step .save, .step .advance, .step (.synchronize recovery), .goBack 0]
  have hforward : ∀ m ∈ stretch, m.returns = false := by decide
  obtain ⟨found, c, hvalue, hlog⟩ := hsync recovery
  have hanswer := congrArg (·.1) hvalue
  have hcursor := congrArg (·.2.cursor) hvalue
  obtain rfl : found = true := Answer.flag.inj (hanswer.symm.trans (by decide +kernel))
  obtain rfl : c = ⟨1, [.semicolon, .endOfFile, .END]⟩ := hcursor.symm.trans (by decide +kernel)
  refine ⟨hforward, (hstretch stretch hforward).2.trans (by decide +kernel),
    hquiet _ nofun nofun, hlog.trans (by decide +kernel)⟩

end Session

end Cursor

end Lookahead
