import Lookahead.Machine.Sets
import Lookahead.Proofs.Inclusion
import Lookahead.Proofs.Parsing

/-!
# Sets word by word

No operation on stored sets comes to a fault, but for a literal that is none, and what each gives is
the stored form of what it gives on the bits. A loop over the segments is its three rounds, and a
loop over a list is a fold; an ordinal of the alphabet finds its segment and its bit.
-/

namespace Lookahead.Machine

open TokenSet (segmentBits segmentCount capacity segmentOf insertBit ofBits)

-- ---------------------------------------------------------------------------
-- Single operations
-- ---------------------------------------------------------------------------

theorem fetch_eq_ok {as : List α} (h : as[i]? = some a) : fetch as i = .ok a := by
  simp [fetch, h]

theorem store_eq_ok {as : List α} (h : i < as.length) (a : α) :
    store as i a = .ok (as.set i a) := if_pos h

theorem bitAt_eq_ok (h : n < 32) : bitAt n = .ok (BitVec.twoPow 32 n) := if_pos h

theorem fit_eq_ok (h : n < 2 ^ width) : fit width n = .ok n := if_pos h

theorem difference_eq_ok (h : n ≤ m) : difference m n = .ok (m - n) := if_pos h

theorem predecessor_eq_ok (h : w ≠ 0) : predecessor w = .ok (w - 1) := if_neg h

theorem entry_eq_ok {all : List α} (h : all.length = count) (n : Nat) :
    entry all count n = .ok all[n]? := by
  unfold entry
  split
  next hle => rw [List.getElem?_eq_none (h.trans_le hle)]; rfl
  next hlt =>
    have hn : n < all.length := h ▸ Nat.lt_of_not_le hlt
    rw [List.getElem?_eq_getElem hn, fetch_eq_ok (List.getElem?_eq_getElem hn)]
    rfl

/-- A loop whose rounds lead from one state to the next. -/
theorem loop_eq_ok {body : Nat → σ → Checked σ} {f : Nat → σ} (hbound : bound < 2 ^ 64)
    (hi : i ≤ bound) (h : ∀ k, i ≤ k → k < bound → body k (f k) = .ok (f (k + 1))) :
    loop bound body i (f i) = .ok (f bound) := by
  rw [loop]
  split
  next hlt =>
    rw [h i (Nat.le_refl i) hlt, ok_bind, fit_eq_ok (by omega), ok_bind]
    exact loop_eq_ok hbound hlt fun k hk => h k (Nat.le_of_succ_le hk)
  next hge =>
    obtain rfl : i = bound := by omega
    rfl
termination_by bound - i

/-- A loop over a list is a fold. -/
theorem loop_eq_foldl {as : List α} {body : Nat → σ → Checked σ} {rep : β → σ} {g : β → α → β}
    (hlen : as.length < 2 ^ 64)
    (h : ∀ {i a}, as[i]? = some a → ∀ b, body i (rep b) = .ok (rep (g b a))) (b : β) :
    loop as.length body 0 (rep b) = .ok (rep (as.foldl g b)) := by
  -- After so many rounds the state stands for the fold over so many elements.
  have hround (k : Nat) (_ : 0 ≤ k) (hk : k < as.length) :
      body k (rep ((as.take k).foldl g b)) = .ok (rep ((as.take (k + 1)).foldl g b)) := by
    rw [h (List.getElem?_eq_getElem hk), ← List.take_append_getElem hk, List.foldl_concat]
  have hloop := loop_eq_ok hlen (Nat.zero_le _) hround
  rwa [List.take_length] at hloop

theorem search_eq_ok {ask : Nat → Checked (Option α)} {g : Nat → Option α}
    (hbound : bound < 2 ^ 64) (h : ∀ k < bound, ask k = .ok (g k)) (i : Nat) :
    search bound ask i = .ok ((List.range' i (bound - i)).findSome? g) := by
  rw [search]
  split
  next hlt =>
    have hrange : List.range' i (bound - i) = i :: List.range' (i + 1) (bound - (i + 1)) := by
      rw [← Nat.sub_sub, ← List.range'_succ]
      congr 1
      omega
    rw [h i hlt, ok_bind, hrange, List.findSome?_cons]
    cases g i with
    | some a => rfl
    | none =>
      simp only
      rw [fit_eq_ok (by omega), ok_bind, search_eq_ok hbound h (i + 1)]
  next hge =>
    have hzero : bound - i = 0 := by omega
    rw [hzero]
    rfl
termination_by bound - i

/-- A loop over the segments is its three rounds. -/
theorem loop_segments (body : Nat → σ → Checked σ) (s : σ) :
    loop segmentCount body 0 s = (do body 2 (← body 1 (← body 0 s))) := by
  simp [loop, fit, segmentCount]

theorem search_segments {ask : Nat → Checked (Option α)} {g : Nat → Option α}
    (h : ∀ k < segmentCount, ask k = .ok (g k)) :
    search segmentCount ask 0 = .ok ((List.range segmentCount).findSome? g) := by
  rw [search_eq_ok (by decide) h 0, Nat.sub_zero, List.range_eq_range']

-- ---------------------------------------------------------------------------
-- Segments
-- ---------------------------------------------------------------------------

section
variable {bits bits' : BitVec capacity} {k n : Nat}

theorem fetch_cells (hk : k < segmentCount) : fetch (cells bits) k = .ok (segmentOf bits k) :=
  fetch_eq_ok (by simp [cells, hk])

theorem store_cells (hk : k < segmentCount)
    (h : ∀ j, segmentOf bits' j = if j = k then w else segmentOf bits j) :
    store (cells bits) k w = .ok (cells bits') := by
  rw [store_eq_ok (by simpa [cells] using hk), Except.ok.injEq]
  refine List.ext_getElem (by simp [cells]) fun j hj hj' => ?_
  simp [cells, List.getElem_set, h j, eq_comm (a := k)]

theorem cells_append (low mid high : Word) : cells (high ++ mid ++ low) = [low, mid, high] := by
  obtain ⟨h0, h1, h2⟩ := TokenSet.segmentOf_append high mid low
  simp [cells, List.range_succ, h0, h1, h2]

@[simp] theorem stored_segments (s : TokenSet) : (stored s).segments = cells s.bits := rfl

theorem cells_zero : cells 0 = noBits := by decide

theorem popcount_cells (bits : BitVec capacity) : popcount (cells bits) = .ok bits.cpop.toNat := by
  have hle (k : Nat) : (segmentOf bits k).cpop.toNat ≤ 32 := BitVec.toNat_cpop_le _
  have h0 := hle 0
  have h1 := hle 1
  have h2 := hle 2
  rw [popcount, loop_segments, TokenSet.cpop_eq_sum]
  rw [fetch_cells (by decide), ok_bind, fit_eq_ok (by omega), ok_bind,
    fetch_cells (by decide), ok_bind, fit_eq_ok (by omega), ok_bind,
    fetch_cells (by decide), ok_bind, fit_eq_ok (by omega), Nat.zero_add]

theorem segmentOf_insertBit (hn : n < capacity) (j : Nat) :
    segmentOf (insertBit n bits) j =
      if j = n / segmentBits then
        segmentOf bits (n / segmentBits) ||| BitVec.twoPow 32 (n % segmentBits)
      else segmentOf bits j := by
  apply BitVec.eq_of_getLsbD_eq
  intro i hi
  rw [TokenSet.getLsbD_segmentOf, insertBit, BitVec.getLsbD_or, BitVec.getLsbD_twoPow]
  split
  next hj =>
    subst hj
    have hplace : n = segmentBits * (n / segmentBits) + i ↔ n % segmentBits = i := by
      simp only [segmentBits]
      omega
    rw [BitVec.getLsbD_or, TokenSet.getLsbD_segmentOf, BitVec.getLsbD_twoPow]
    simp [hi, hn, hplace, Nat.mod_lt]
  next hj =>
    have hplace : n ≠ segmentBits * j + i := by
      simp only [segmentBits] at hj ⊢
      omega
    rw [TokenSet.getLsbD_segmentOf]
    simp only [hi, hplace, decide_true, decide_false, Bool.true_and, Bool.and_false, Bool.or_false]

theorem lt_capacity_of_isElementOrdinal (hn : TokenSet.isElementOrdinal n = true) : n < capacity :=
  Nat.lt_of_le_of_lt (TokenSet.isElementOrdinal_iff.mp hn).2 (by decide)

theorem isElementOrdinal_eq_false_iff :
    TokenSet.isElementOrdinal n = false ↔ n < Token.minElement ∨ Token.maxOrdinal < n := by
  rw [← Bool.not_eq_true, TokenSet.isElementOrdinal_iff]
  simp only [Token.minElement, Token.maxOrdinal]
  omega

/-- Every bit that is marked or asked for has its place in a segment. -/
theorem place_lt (h : (∃ t : Token, t.ordinal = n) ∨ TokenSet.isElementOrdinal n = true) :
    n / segmentBits < segmentCount ∧ n % segmentBits < 32 := by
  have hn : n < Token.count := by
    rcases h with ⟨t, rfl⟩ | h
    · exact t.ordinal_lt_count
    · exact Nat.lt_succ_of_le (TokenSet.isElementOrdinal_iff.mp h).2
  simp only [segmentBits, segmentCount, Token.count] at hn ⊢
  omega

theorem mark_cells (hn : n < capacity) : mark (cells bits) n = .ok (cells (insertBit n bits)) := by
  have hk : n / segmentBits < segmentCount := Nat.div_lt_of_lt_mul hn
  rw [mark, fetch_cells hk, ok_bind, bitAt_eq_ok (Nat.mod_lt _ (by decide)), ok_bind]
  exact store_cells hk (segmentOf_insertBit hn)

theorem loop_store (bits : BitVec capacity) {body : Nat → List Word → Checked (List Word)}
    (h : ∀ k < segmentCount, ∀ segments, body k segments = store segments k (segmentOf bits k)) :
    loop segmentCount body 0 noBits = .ok (cells bits) := by
  rw [loop_segments, h 0 (by decide)]
  simp only [h 1 (by decide), h 2 (by decide)]
  simp [store, noBits, cells, List.range_succ, segmentCount]

/-- The segments are asked until one objects. -/
theorem search_all {p : Nat → Prop} [DecidablePred p] {ask : Nat → Checked (Option Bool)}
    (h : ∀ k < segmentCount, ask k = .ok (if p k then some false else none)) :
    (do return (← search segmentCount ask 0).getD true) =
      (.ok (decide (∀ k < segmentCount, ¬ p k)) : Checked Bool) := by
  rw [search_segments h, ok_bind, pure_eq_ok, Except.ok.injEq, Bool.eq_iff_iff, decide_eq_true_iff]
  cases hfind : (List.range segmentCount).findSome? fun k => if p k then some false else none with
  | none =>
    rw [List.findSome?_eq_none_iff] at hfind
    simpa using hfind
  | some b =>
    obtain ⟨k, hk, hb⟩ := List.exists_of_findSome?_eq_some hfind
    split at hb
    next hp =>
      cases hb
      simpa using ⟨k, List.mem_range.mp hk, hp⟩
    next => cases hb

theorem validMask_eq_ok : validMask = .ok (cells TokenSet.alphabet) := by
  let f (k : Nat) := cells ((BitVec.allOnes (k - 1)).setWidth capacity <<< 1)
  have hround (k : Nat) (hlow : Token.minElement ≤ k) (hk : k < Token.maxOrdinal + 1) :
      mark (f k) k = .ok (f (k + 1)) := by
    rw [mark_cells (Nat.lt_of_lt_of_le hk (by decide))]
    congr 2
    apply BitVec.eq_of_getLsbD_eq
    intro i hi
    have hk' : k < capacity := Nat.lt_of_lt_of_le hk (by decide)
    rw [Bool.eq_iff_iff]
    simp only [insertBit, BitVec.getLsbD_or, BitVec.getLsbD_twoPow, BitVec.getLsbD_shiftLeft,
      BitVec.getLsbD_setWidth, BitVec.getLsbD_allOnes, hi, hk', Bool.or_eq_true, Bool.and_eq_true,
      Bool.not_eq_true', decide_eq_true_eq, decide_eq_false_iff_not, true_and]
    simp only [Token.minElement] at hlow
    omega
  have hstart : noBits = f Token.minElement := by decide
  rw [validMask, hstart, loop_eq_ok (by decide) (by decide) hround]
  rfl

end

-- ---------------------------------------------------------------------------
-- Building sets
-- ---------------------------------------------------------------------------

namespace Stored

theorem ofSegments_cells (bits : BitVec capacity) :
    ofSegments (cells bits) = .ok (stored (ofBits bits)) := by
  rw [ofSegments, popcount_cells]
  rfl

theorem ofTokens_eq_ok (ts : Slice Token) :
    Stored.ofTokens ts = .ok (stored (.ofTokens ts.val)) := by
  simp only [Stored.ofTokens]
  rw [← cells_zero, loop_eq_foldl ts.property, ok_bind, ofSegments_cells]
  · rfl
  · intro i t hi bits
    rw [fetch_eq_ok hi, ok_bind]
    by_cases ht : t = .unknown
    · subst ht
      rfl
    · have helement := TokenSet.isElementOrdinal_ordinal.mpr ht
      rw [if_pos (TokenSet.isElementOrdinal_iff.mp helement).1, if_neg ht,
        mark_cells (lt_capacity_of_isElementOrdinal helement)]

theorem markAll_cells (ns : List Word) (bits : BitVec capacity) :
    markAll (cells bits) ns =
      .ok (match (ns.map BitVec.toNat).find? (!TokenSet.isElementOrdinal ·) with
        | some n => .error (.ordinalOutOfRange n Token.maxOrdinal)
        | none => .ok (cells
          ((ns.map BitVec.toNat).foldl (fun bits n => insertBit n bits) bits))) := by
  induction ns generalizing bits with
  | nil => rfl
  | cons n ns ih =>
    rw [markAll]
    cases hn : TokenSet.isElementOrdinal n.toNat with
    | true =>
      rw [if_neg (mt isElementOrdinal_eq_false_iff.mpr (by simp [hn])),
        mark_cells (lt_capacity_of_isElementOrdinal hn), ok_bind, ih]
      simp [hn]
    | false =>
      rw [if_pos (isElementOrdinal_eq_false_iff.mp hn)]
      simp [hn]

theorem ofOrdinals_eq_ok (ns : List Word) :
    Stored.ofOrdinals ns = .ok ((TokenSet.ofOrdinals (ns.map BitVec.toNat)).map stored) := by
  rw [Stored.ofOrdinals, ← cells_zero, markAll_cells, ok_bind, TokenSet.ofOrdinals]
  cases (ns.map BitVec.toNat).find? (!TokenSet.isElementOrdinal ·) with
  | some n => rfl
  | none =>
    simp only [ofSegments_cells, ok_bind]
    rfl

theorem stray_cells (bits : BitVec capacity) : stray (cells bits) = .ok (TokenSet.stray? bits) := by
  let word (k : Nat) := segmentOf (bits &&& ~~~TokenSet.alphabet) k
  have hmask : ∀ k < segmentCount,
      ~~~segmentOf TokenSet.alphabet k = segmentOf (~~~TokenSet.alphabet) k := by decide
  rw [stray]
  refine (search_segments (g := fun k => if word k ≠ 0 then some (k, word k) else none)
    fun k hk => ?_).trans ?_
  · simp only [validMask_eq_ok, fetch_cells hk, ok_bind, pure_eq_ok, hmask k hk,
      ← TokenSet.segmentOf_and, word]
  · rw [TokenSet.stray?, ← List.findSome?_guard, List.findSome?_map]
    simp [Option.guard, Function.comp_def, word]

theorem ofWords_eq_ok (raw : List Word) :
    Stored.ofWords raw = .ok ((TokenSet.ofWords raw).map stored) := by
  by_cases hlen : raw.length = TokenSet.literalLength
  · obtain ⟨low, mid, high, n, rfl⟩ : ∃ low mid high n, raw = [low, mid, high, n] :=
      List.length_eq_four.mp hlen
    obtain ⟨h0, h1, h2⟩ := TokenSet.segmentOf_append high mid low
    have hcopy (k : Nat) (hk : k < segmentCount) (segments : List Word) :
        (do store segments k (← fetch [low, mid, high, n] k)) =
          store segments k (segmentOf (high ++ mid ++ low) k) := by
      match k, hk with
      | 0, _ => rw [h0]; rfl
      | 1, _ => rw [h1]; rfl
      | 2, _ => rw [h2]; rfl
    have hdeclared : fetch [low, mid, high, n] segmentCount = .ok n := rfl
    simp only [Stored.ofWords, TokenSet.ofWords, hlen, hdeclared, loop_store _ hcopy,
      popcount_cells, stray_cells, ok_bind, ne_eq, not_true_eq_false, if_false]
    split
    · rfl
    split
    · rfl
    cases TokenSet.stray? (high ++ mid ++ low) <;> rfl
  · rw [TokenSet.ofWords_of_length_ne hlen, Stored.ofWords, if_pos hlen]
    rfl

theorem literal_eq_ok_iff : Stored.literal raw = .ok s ↔ Stored.ofWords raw = .ok (.ok s) := by
  rw [Stored.literal, ofWords_eq_ok]
  cases TokenSet.ofWords raw <;> simp [Except.map]

/-- The words that are refused are the only fault. -/
theorem literal_eq_error_iff :
    Stored.literal raw = .error fault ↔
      fault = .defect .malformedLiteral ∧ ∃ e, Stored.ofWords raw = .ok (.error e) := by
  rw [Stored.literal, ofWords_eq_ok]
  cases TokenSet.ofWords raw <;> simp [Except.map, eq_comm]

theorem readInto_eq_ok (css : List (List Char)) (ws : List Word) :
    readInto (ws ++ List.replicate css.length 0) ws.length css =
      .ok ((TokenSet.readWords ws.length css).map (ws ++ ·)) := by
  induction css generalizing ws with
  | nil => simp [readInto, TokenSet.readWords, Except.map]
  | cons cs css ih =>
    rw [readInto, TokenSet.readWords]
    cases if ws.length < segmentCount then TokenSet.segmentWord? cs else TokenSet.countWord? cs with
    | none => rfl
    | some w =>
      have hstore : store (ws ++ List.replicate (css.length + 1) 0) ws.length w =
          .ok ((ws ++ [w]) ++ List.replicate css.length 0) := by
        rw [store_eq_ok (by simp), List.replicate_succ]
        simp
      have hnext := ih (ws ++ [w])
      rw [List.length_append, List.length_singleton] at hnext
      simp only [List.length_cons, hstore, ok_bind, hnext]
      cases TokenSet.readWords (ws.length + 1) css <;> simp [Except.map]

theorem parse_eq_ok (text : String) :
    Stored.parse text = .ok ((TokenSet.parse text).run.value.map stored) := by
  rw [Stored.parse, TokenSet.value_parse]
  by_cases hlen : (TokenSet.splitWords text.toList).length = TokenSet.literalLength
  · have hread := readInto_eq_ok (TokenSet.splitWords text.toList) []
    rw [hlen, List.nil_append, List.length_nil] at hread
    rw [if_neg (not_not.mpr hlen), if_pos hlen, hread]
    cases TokenSet.readWords 0 (TokenSet.splitWords text.toList) with
    | error e => rfl
    | ok raw => exact ofWords_eq_ok raw
  · rw [if_pos hlen, if_neg hlen]
    rfl

-- ---------------------------------------------------------------------------
-- Asking and uniting
-- ---------------------------------------------------------------------------

theorem hasOrdinal_stored (s : TokenSet) (n : Word) :
    (stored s).hasOrdinal n = .ok (s.hasOrdinal n.toNat) := by
  rw [Stored.hasOrdinal, TokenSet.hasOrdinal]
  cases hn : TokenSet.isElementOrdinal n.toNat with
  | true =>
    obtain ⟨hk, hbit⟩ := place_lt (.inr hn)
    rw [if_neg (mt isElementOrdinal_eq_false_iff.mpr (by simp [hn])), stored_segments,
      fetch_cells hk, ok_bind, bitAt_eq_ok hbit, ok_bind, pure_eq_ok, Bool.true_and,
      TokenSet.getLsbD_eq_segmentOf, Except.ok.injEq, Bool.eq_iff_iff, decide_eq_true_iff]
    exact Bits.and_twoPow_ne_zero_iff hbit
  | false =>
    rw [if_pos (isElementOrdinal_eq_false_iff.mp hn)]
    rfl

theorem contains_stored (s : TokenSet) (t : Token) :
    (stored s).contains t = .ok (s.contains t) := by
  rw [Stored.contains, hasOrdinal_stored, TokenSet.toNat_ofNat_ordinal, TokenSet.contains]

theorem isSubset_stored (a b : TokenSet) :
    (stored a).isSubset (stored b) = .ok (a.isSubset b) := by
  rw [Stored.isSubset]
  refine (search_all (p := fun k => (b.segment k &&& a.segment k) ^^^ a.segment k ≠ 0)
    fun k hk => ?_).trans ?_
  · simp only [stored_segments, fetch_cells hk, ok_bind, pure_eq_ok]
    rfl
  · rw [Except.ok.injEq, Bool.eq_iff_iff, TokenSet.isSubset_iff_segment]
    simp

theorem isDisjoint_stored (a b : TokenSet) :
    (stored a).isDisjoint (stored b) = .ok (a.isDisjoint b) := by
  rw [Stored.isDisjoint]
  refine (search_all (p := fun k => a.segment k &&& b.segment k ≠ 0) fun k hk => ?_).trans ?_
  · simp only [stored_segments, fetch_cells hk, ok_bind, pure_eq_ok]
    rfl
  · rw [Except.ok.injEq, Bool.eq_iff_iff, TokenSet.isDisjoint_iff_segment]
    simp

theorem union_stored (a b : TokenSet) :
    (stored a).union (stored b) = .ok (stored (a.union b)) := by
  rw [Stored.union, loop_store (a.bits ||| b.bits) fun k hk segments => ?_, ok_bind,
    ofSegments_cells, TokenSet.union]
  rw [stored_segments, stored_segments, fetch_cells hk, fetch_cells hk, TokenSet.segmentOf_or]
  rfl

theorem foldlM_union_stored (s : TokenSet) (rest : List TokenSet) :
    (rest.map stored).foldlM Stored.union (stored s) =
      .ok (stored (rest.foldl TokenSet.union s)) := by
  induction rest generalizing s with
  | nil => rfl
  | cons t rest ih =>
    rw [List.map_cons, List.foldlM_cons, union_stored, ok_bind, ih, List.foldl_cons]

theorem unionOf_stored (sets : List TokenSet) :
    Stored.unionOf (sets.map stored) = .ok ((TokenSet.unionOf sets).map stored) := by
  cases sets with
  | nil => rfl
  | cons s rest =>
    rw [List.map_cons, Stored.unionOf, foldlM_union_stored]
    rfl

end Stored

end Lookahead.Machine
