import Lookahead.Machine.Streams
import Lookahead.Proofs.Dialects
import Lookahead.Proofs.Skipping
import Lookahead.Proofs.Stored
import Lookahead.Proofs.Walk

/-!
# No operation comes to a fault

`faultless`: on the machine every operation gives what it gives on the bits, but for a literal that
is no set. An iterator goes through the segments of the bits that are left (`Shows`), and what is
left of a reachable set are bits of tokens, so every ordinal it comes to is that of a member. A
reader is where a cursor within its stream is, and a cursor that skips never goes back.
-/

namespace Lookahead.Machine

open Bits (positions)
open Cursor (Scans Within)
open TokenSet (Iter Reachable bitCount isElementOrdinal segmentBits segmentCount segmentOf)

-- ---------------------------------------------------------------------------
-- Walking
-- ---------------------------------------------------------------------------

namespace Walker

/-- The walker stores the bits that the iterator has, and has passed none of them. -/
structure Shows (w : Walker) (it : Iter) : Prop where
  segments_eq : w.segments = cells it.rest
  passed_eq_zero : ∀ j < w.segment, segmentOf it.rest j = 0

theorem shows_walk (s : TokenSet) : Shows (stored s).walk s.iter := ⟨rfl, nofun⟩

theorem Shows.rest_eq_zero (h : Shows w it) (hend : ¬w.segment < segmentCount) : it.rest = 0 := by
  have hpassed (j : Nat) (hj : j < segmentCount) : segmentOf it.rest j = 0 :=
    h.passed_eq_zero j (Nat.lt_of_lt_of_le hj (Nat.le_of_not_lt hend))
  exact TokenSet.eq_zero_iff_segmentOf.mpr
    ⟨hpassed 0 (by decide), hpassed 1 (by decide), hpassed 2 (by decide)⟩

theorem Shows.pop {w : Walker} {it : Iter} (h : Shows w it) :
    ∃ w', w.pop = .ok ((positions it.rest).head?, w') ∧ Shows w' it.next.2 := by
  -- The recursion is on the segments that are not passed yet.
  rw [Walker.pop]
  split
  next hk =>
    rw [h.segments_eq, fetch_cells hk, ok_bind]
    split
    next hzero =>
      have hshows : Shows ⟨cells it.rest, w.segment + 1⟩ it := by
        refine ⟨rfl, fun j hj => ?_⟩
        rcases Nat.lt_succ_iff_lt_or_eq.mp hj with hlt | rfl
        · exact h.passed_eq_zero j hlt
        · exact hzero
      rw [fit_eq_ok (Nat.lt_of_le_of_lt hk (by decide)), ok_bind]
      exact hshows.pop
    next hne =>
      have hrest := TokenSet.ne_zero_of_segmentOf hne
      have hlt := BitVec.lt_of_getLsbD (BitVec.getLsbD_true_ctz_of_ne_zero hrest)
      obtain ⟨-, hclear⟩ := Iter.next_eq_of_segmentOf h.passed_eq_zero hne
      rw [predecessor_eq_ok hne, ok_bind, store_cells hk hclear, ok_bind,
        Nat.mul_comm, ← TokenSet.toNat_ctz_of_segmentOf h.passed_eq_zero hne,
        fit_eq_ok (Nat.lt_trans hlt (by decide)), ok_bind, Bits.positions_of_ne_zero _ hrest]
      refine ⟨_, rfl, rfl, fun j hj => ?_⟩
      rw [hclear, if_neg (Nat.ne_of_lt hj), h.passed_eq_zero j hj]
  next hk =>
    have hrest := h.rest_eq_zero hk
    rw [Bits.positions_eq_nil_iff.mpr hrest, Iter.next, if_pos hrest]
    exact ⟨w, rfl, h⟩
termination_by segmentCount - w.segment

section
variable {w : Walker} {it : Iter} {ts : List Token} (h : Shows w it) (hy : it.Yields ts)
include h hy

theorem pop_eq_ok : ∃ w' it', w.pop = .ok (ts.head?.map Token.ordinal, w') ∧ Shows w' it' ∧
    it'.Yields (ts.drop 1) := by
  obtain ⟨w', hpop, h'⟩ := h.pop
  obtain ⟨it', hnext, hy'⟩ := hy.next
  rw [hy, List.head?_map] at hpop
  rw [hnext] at h'
  exact ⟨w', it', hpop, h', hy'⟩

theorem next_eq_ok : ∃ w' it', w.next = .ok (ts.head?, w') ∧ Shows w' it' ∧
    it'.Yields (ts.drop 1) := by
  obtain ⟨w', it', hpop, h', hy'⟩ := pop_eq_ok h hy
  refine ⟨w', it', ?_, h', hy'⟩
  rw [Walker.next, hpop, ok_bind]
  cases ts with
  | nil => rfl
  | cons t ts =>
    have hbyte : t.ordinal < 256 := Nat.lt_trans t.ordinal_lt_count (by decide)
    simp only [List.head?_cons, Option.map_some, if_pos hbyte, entry_eq_ok Token.length_all,
      Token.all_getElem?_ordinal, ok_bind, pure_eq_ok]

theorem remaining_eq_ok : w.remaining = .ok ts.length := by
  rw [Walker.remaining, h.segments_eq, popcount_cells, ← hy.remaining, Iter.remaining]

end

theorem steps_eq_ok {w : Walker} {it : Iter} {ts : List Token} (h : Shows w it) (hy : it.Yields ts)
    (n : Nat) : ∃ w' it', w.steps n = .ok ((List.range n).map (ts[·]?), w') ∧ Shows w' it' ∧
      it'.Yields (ts.drop n) := by
  induction n generalizing w it ts with
  | zero => exact ⟨w, it, rfl, h, hy⟩
  | succ n ih =>
    obtain ⟨w₁, it₁, hnext, h₁, hy₁⟩ := next_eq_ok h hy
    obtain ⟨w₂, it₂, hsteps, h₂, hy₂⟩ := ih h₁ hy₁
    refine ⟨w₂, it₂, ?_, h₂, by rwa [List.drop_drop, Nat.add_comm] at hy₂⟩
    rw [Walker.steps, hnext, ok_bind]
    simp only [hsteps, ok_bind, pure_eq_ok, List.range_succ_eq_map, List.map_cons, List.map_map,
      Function.comp_def, List.getElem?_drop, List.head?_eq_getElem?, Nat.add_comm 1]

end Walker

/-- After any number of steps the walker has the members still to come, and stops at the next of
them, whose ordinal is one of a token and fits in a byte. -/
theorem walk_exact (hr : Reachable s) (n : Nat) :
    ∃ w, (stored s).walk.steps n = .ok ((List.range n).map (s.toList[·]?), w) ∧
      w.remaining = .ok (s.toList.length - n) ∧
      (∃ w', w.pop = .ok (s.toList[n]?.map Token.ordinal, w')) ∧
      ∀ k w', w.pop = .ok (some k, w') → k < Token.count ∧ k < 256 := by
  obtain ⟨w, it, hsteps, h, hy⟩ :=
    Walker.steps_eq_ok (Walker.shows_walk s) hr.consistent.yields_iter n
  obtain ⟨w', -, hpop, -⟩ := Walker.pop_eq_ok h hy
  rw [List.head?_drop] at hpop
  refine ⟨w, hsteps, ?_, ⟨w', hpop⟩, fun k w'' hk => ?_⟩
  · rw [Walker.remaining_eq_ok h hy, List.length_drop]
  · rw [hpop, Except.ok.injEq, Prod.mk.injEq, Option.map_eq_some_iff] at hk
    obtain ⟨⟨t, -, rfl⟩, -⟩ := hk
    exact ⟨t.ordinal_lt_count, Nat.lt_trans t.ordinal_lt_count (by decide)⟩

-- ---------------------------------------------------------------------------
-- Streams and tables
-- ---------------------------------------------------------------------------

section
variable {ts : Slice Token} {c : Cursor}

theorem current_eq (h : Within ts.val c) : (Reader.mk ts c.position).current = c.current := by
  rw [h.current_eq, Reader.current, List.getD_eq_getElem?_getD]

/-- A place is at most the length of the stream, so one more is a size. -/
theorem fit_place (h : Within ts.val c) (hend : c.isAtEnd = false) :
    fit 64 (c.position + 1) = .ok (c.position + 1) := by
  have hnext := (h.forward (n := 1) (by simp [Cursor.ahead_of_not_isAtEnd hend])).position_le_length
  exact fit_eq_ok (Nat.lt_of_le_of_lt hnext ts.property)

theorem advance_eq_ok (h : Within ts.val c) :
    Reader.advance ⟨ts, c.position⟩ =
      .ok (c.advance.value.1, ⟨ts, c.advance.value.2.position⟩) := by
  rw [Reader.advance, current_eq h]
  split
  next hend =>
    rw [Cursor.advance_of_endOfFile hend]
    rfl
  next hne =>
    rw [fit_place h (beq_eq_false_iff_ne.mpr hne), Cursor.advance_of_ne hne]
    rfl

theorem skip_eq_ok (hscan : Scans recovery c result) (h : Within ts.val c)
    (hstart : start ≤ c.position) :
    Reader.skip (stored recovery) start ⟨ts, c.position⟩ =
      .ok (result.1, result.2.position - start, ⟨ts, result.2.position⟩) := by
  induction hscan with
  | atEnd hend =>
    rw [Reader.skip, dif_pos ((current_eq h).trans (beq_iff_eq.mp hend)),
      difference_eq_ok hstart]
    rfl
  | found hend hat =>
    have hne := beq_eq_false_iff_ne.mp hend
    rw [Cursor.isAt] at hat
    rw [Reader.skip, dif_neg (by rwa [current_eq h]), current_eq h, Stored.contains_stored, hat,
      difference_eq_ok hstart]
    rfl
  | skip hend hat _ ih =>
    have hne := beq_eq_false_iff_ne.mp hend
    have hahead := Cursor.ahead_of_not_isAtEnd hend
    have hforward := h.forward (n := 1) (by simp [hahead])
    rw [Cursor.isAt] at hat
    rw [Cursor.advance_of_ne hne] at ih
    rw [Reader.skip, dif_neg (by rwa [current_eq h]), current_eq h, Stored.contains_stored, hat,
      fit_place h hend]
    exact ih hforward (Nat.le_succ_of_le hstart)

end

theorem lookup_eq_ok (table : Table) (p : Production) (d : Dialect) :
    lookup table p d = .ok (table.lookup p d).value := by
  have hrow := table.getElem?_rows p d
  have hlt := table.rowIndex_lt_rowCount p d
  rw [Table.rowIndex] at hrow hlt
  rw [lookup]
  split
  next halternate =>
    rw [if_pos halternate] at hrow hlt
    rw [fit_eq_ok (Nat.lt_trans hlt (by decide)), ok_bind]
    exact fetch_eq_ok hrow
  next hcanonical =>
    rw [if_neg hcanonical] at hrow
    exact fetch_eq_ok hrow

theorem alternateRows_eq_ok (table : Table) :
    alternateRows table = .ok (Table.alternated.map table.alternate) := by
  have hlen : (Production.all.map table.canonical).length = Production.count := by
    rw [List.length_map, Production.length_all]
  rw [alternateRows, fetchFrom, Table.rows, if_pos (by simp [hlen]), List.drop_left' hlen]

theorem resync_eq_ok (point : ResyncPoint) : resync point = .ok point.resync := by
  refine fetch_eq_ok ?_
  rw [List.getElem?_map, ResyncPoint.all_getElem?_ordinal, Option.map_some]

-- ---------------------------------------------------------------------------
-- Every operation
-- ---------------------------------------------------------------------------

theorem popcount_eq_ok (low mid high : Word) :
    popcount [low, mid, high] = .ok (bitCount low mid high) := by
  rw [← cells_append, popcount_cells, TokenSet.toNat_cpop_append]

theorem ok_map_eq_error_iff {x : Except ε α} {f : α → β} :
    (.ok (x.map f) : Checked (Except ε β)) = .ok (.error e) ↔ x = .error e := by
  cases x <;> simp [Except.map]

/-- A wrong number of words is never reported as the right one. -/
theorem found_ne (h : Stored.ofWords words = .ok (.error (.segmentCount expected found)) ∨
    Stored.parse text = .ok (.error (.segmentCount expected found))) : found ≠ 3 := by
  have hwords {raw : List Word}
      (hraw : TokenSet.ofWords raw = .error (.segmentCount expected found)) : found ≠ 3 :=
    (TokenSet.ofWords_eq_error_iff.mp hraw).found_ne
  rw [Stored.ofWords_eq_ok, Stored.parse_eq_ok, ok_map_eq_error_iff, ok_map_eq_error_iff] at h
  rcases h with hraw | htext
  · exact hwords hraw
  · rcases TokenSet.value_parse_error htext with ⟨_, hmalformed⟩ | ⟨_, hraw⟩
    · cases hmalformed
    · exact hwords hraw

/-- A set may be any that a program can hold, and a cursor wherever a run of moves has taken it. -/
theorem faultless (ts : Slice Token) (words : List Word) (text : String) (n : Word)
    (hs : Reachable s) (sets : List TokenSet) (steps : Nat) (moves : List Cursor.Move)
    (recovery : TokenSet) (table : Table) (p : Production) (d : Dialect) (point : ResyncPoint) :
    let c := ((Cursor.Session.ofTokens ts.val).after moves).cursor
    let stop := c.recovered recovery
    Stored.ofTokens ts = .ok (stored (.ofTokens ts.val)) ∧
    Stored.ofOrdinals words = .ok ((TokenSet.ofOrdinals (words.map BitVec.toNat)).map stored) ∧
    (stored s).hasOrdinal n = .ok (s.hasOrdinal n.toNat) ∧
    (∀ k, (∃ t : Token, t.ordinal = k) ∨ isElementOrdinal k = true →
      k / segmentBits < segmentCount ∧ k % segmentBits < 32) ∧
    (∀ low mid high,
      popcount [low, mid, high] = .ok (bitCount low mid high) ∧ bitCount low mid high ≤ 96) ∧
    Stored.ofWords words = .ok ((TokenSet.ofWords words).map stored) ∧
    Stored.parse text = .ok ((TokenSet.parse text).run.value.map stored) ∧
    (∀ expected found,
      Stored.ofWords words = .ok (.error (.segmentCount expected found)) ∨
        Stored.parse text = .ok (.error (.segmentCount expected found)) → found ≠ 3) ∧
    (∀ fault, Stored.literal words = .error fault ↔
      fault = .defect .malformedLiteral ∧ ∃ e, Stored.ofWords words = .ok (.error e)) ∧
    (∀ a, Stored.literal words = .ok a ↔ Stored.ofWords words = .ok (.ok a)) ∧
    (∀ t, (stored s).contains t = .ok (s.contains t)) ∧
    (∀ a, (stored s).union (stored a) = .ok (stored (s.union a)) ∧
      (stored s).isSubset (stored a) = .ok (s.isSubset a) ∧
      (stored s).isDisjoint (stored a) = .ok (s.isDisjoint a)) ∧
    Stored.unionOf (sets.map stored) = .ok ((TokenSet.unionOf sets).map stored) ∧
    (∃ w, (stored s).walk.steps steps = .ok ((List.range steps).map (s.toList[·]?), w) ∧
      w.remaining = .ok (s.toList.length - steps) ∧
      (∃ w', w.pop = .ok (s.toList[steps]?.map Token.ordinal, w')) ∧
      ∀ k w', w.pop = .ok (some k, w') → k < Token.count ∧ k < 256) ∧
    Reader.advance ⟨ts, c.position⟩ =
      .ok (c.advance.value.1, ⟨ts, c.advance.value.2.position⟩) ∧
    c.position ≤ stop.position ∧
    Reader.synchronize (stored recovery) ⟨ts, c.position⟩ =
      .ok (c.recovers recovery, stop.position - c.position, ⟨ts, stop.position⟩) ∧
    table.rowIndex p d < Table.rowCount ∧
    lookup table p d = .ok (table.lookup p d).value ∧
    alternateRows table = .ok (Table.alternated.map table.alternate) ∧
    resync point = .ok point.resync ∧
    ∀ k, entry Token.all Token.count k = .ok (Token.ofOrdinal? k) ∧
      entry Production.all Production.count k = .ok (Production.ofOrdinal? k) := by
  intro c stop
  have hc : Within ts.val c := Cursor.Session.within_ofTokens ts.val moves c List.mem_cons_self
  have hstop : c.position ≤ stop.position := by
    rw [Cursor.position_recovered]
    exact Nat.le_add_right _ _
  refine ⟨Stored.ofTokens_eq_ok ts, Stored.ofOrdinals_eq_ok words, Stored.hasOrdinal_stored s n,
    fun _ => place_lt, ?_, Stored.ofWords_eq_ok words, Stored.parse_eq_ok text,
    fun _ _ => found_ne, fun _ => Stored.literal_eq_error_iff, fun _ => Stored.literal_eq_ok_iff,
    Stored.contains_stored s, ?_, Stored.unionOf_stored sets, walk_exact hs steps,
    advance_eq_ok hc, hstop, skip_eq_ok (Cursor.scans_synchronize c recovery) hc (Nat.le_refl _),
    table.rowIndex_lt_rowCount p d, lookup_eq_ok table p d, alternateRows_eq_ok table,
    resync_eq_ok point, ?_⟩
  · exact fun low mid high => ⟨popcount_eq_ok low mid high, TokenSet.bitCount_le low mid high⟩
  · exact fun a =>
      ⟨Stored.union_stored s a, Stored.isSubset_stored s a, Stored.isDisjoint_stored s a⟩
  · exact fun k => ⟨entry_eq_ok Token.length_all k, entry_eq_ok Production.length_all k⟩

/-- The bit of `unknown`, a walk past the last member and a stream with tokens behind its end. -/
theorem faultless_of_inputs :
    let s := TokenSet.ofTokens [.endOfFile, .REPEAT, .AND]
    let ts : Slice Token := ⟨[.unknown, .END, .plus, .endOfFile, .END], by decide⟩
    Reachable s ∧
    Stored.literal [0x00000001, 0, 0, 1] = .error (.defect .malformedLiteral) ∧
    (∃ w, (stored s).walk.steps 4 = .ok ([some .AND, some .REPEAT, some .endOfFile, none], w) ∧
      w.remaining = .ok 0) ∧
    Reader.synchronize (stored (.ofTokens [.endOfFile, .plus])) ⟨ts, 1⟩ = .ok (true, 1, ⟨ts, 2⟩) ∧
    Table.follow.rowIndex .variant ⟨false, false⟩ < 84 := by
  intro s ts
  have hs : Reachable s := .ofTokens _
  obtain ⟨-, -, -, -, -, hwords, -, -, hliteral, -, -, -, -, hwalk, -, -, hskip, hrow, -⟩ :=
    faultless ts [0x00000001, 0, 0, 1] "" 0 hs [s] 4 [.step .advance]
      (.ofTokens [.endOfFile, .plus]) .follow .variant ⟨false, false⟩ .definitionOrEnd
  have hstray : TokenSet.ofWords [0x00000001, 0, 0, 1] = .error (.strayBits 0 1) := by decide
  rw [hstray] at hwords
  refine ⟨hs, (hliteral _).mpr ⟨rfl, _, hwords⟩, ?_, ?_, hrow⟩
  · have hmembers : s.toList = [.AND, .REPEAT, .endOfFile] := by decide
    obtain ⟨w, hsteps, hremaining, -⟩ := hwalk
    rw [hmembers] at hsteps hremaining
    exact ⟨w, hsteps, hremaining⟩
  · have hcursor : ((Cursor.Session.ofTokens ts.val).after [.step .advance]).cursor =
        ⟨1, [.END, .plus, .endOfFile, .END]⟩ := by decide
    rw [hcursor] at hskip
    exact hskip

end Lookahead.Machine
