import Lookahead.Proofs.Consistent

/-!
# Stored words

Words are taken as a set where they are three segments and their element count, and no bit is set
but those of elements (`Fitting`). Other words are refused for the first thing that is wrong with
them (`Refused`). `ofWords_exact` puts the two together.
-/

namespace Lookahead.TokenSet

def bitCount (low mid high : Word) : Nat := low.cpop.toNat + mid.cpop.toNat + high.cpop.toNat

/-- The bits that no element has, segment by segment. -/
def unassigned : List Word := [0x00000001, 0x00000000, 0xFFFFC000]

def strayWords (low mid high : Word) : List Word :=
  [low, mid, high].zipWith (· &&& ·) unassigned

def Fitting : List Word → Prop
  | [low, mid, high, n] =>
    bitCount low mid high = n.toNat ∧ low.getLsbD 0 = false ∧ high.toNat < 2 ^ 14
  | _ => False

/-- Words and the fault that is reported of them, however many they have. -/
inductive Refused : List Word → TokenSetError → Prop
  | segmentCount : raw.length ≠ 4 → Refused raw (.segmentCount 3 (max raw.length 1 - 1))
  | counterOverflow : 96 < n.toNat → Refused [low, mid, high, n] (.counterOverflow n.toNat 96)
  | countMismatch : n.toNat ≤ 96 → bitCount low mid high ≠ n.toNat →
      Refused [low, mid, high, n] (.countMismatch n.toNat (bitCount low mid high))
  | strayBits : bitCount low mid high = n.toNat →
      (strayWords low mid high)[k]? = some w → w ≠ 0 →
      (∀ j < k, (strayWords low mid high)[j]? = some 0) →
      Refused [low, mid, high, n] (.strayBits k w)

-- ---------------------------------------------------------------------------
-- Bits
-- ---------------------------------------------------------------------------

section
variable (low mid high : Word)

theorem bitCount_le : bitCount low mid high ≤ 96 := by
  have hle (w : Word) : w.cpop.toNat ≤ 32 := BitVec.toNat_cpop_le w
  have h := hle low
  have h' := hle mid
  have h'' := hle high
  rw [bitCount]
  omega

theorem toNat_cpop_append : (high ++ mid ++ low).cpop.toNat = bitCount low mid high := by
  obtain ⟨h0, h1, h2⟩ := segmentOf_append high mid low
  rw [cpop_eq_sum, h0, h1, h2, bitCount]

theorem map_segmentOf_stray :
    (List.range segmentCount).map (segmentOf ((high ++ mid ++ low) &&& ~~~alphabet)) =
      strayWords low mid high := by
  obtain ⟨h0, h1, h2⟩ := segmentOf_append high mid low
  have hmask : (List.range segmentCount).map (segmentOf (~~~alphabet)) = unassigned := by decide
  simp [segmentOf_and, List.range_succ, strayWords, ← hmask, h0, h1, h2]

end

theorem find?_ne_zero_iff {f : Nat → Word} {n : Nat} :
    ((List.range n).map fun k => (k, f k)).find? (·.2 ≠ 0) = some (k, w) ↔
      ((List.range n).map f)[k]? = some w ∧ w ≠ 0 ∧
        ∀ j < k, ((List.range n).map f)[j]? = some 0 := by
  have hget {j : Nat} {v : Word} : ((List.range n).map f)[j]? = some v ↔ j < n ∧ f j = v := by
    simp [List.getElem?_eq_some_iff]
  simp only [hget, List.find?_eq_some_iff_getElem, List.length_map, List.length_range,
    List.getElem_map, List.getElem_range, Prod.mk.injEq, ne_eq, decide_eq_true_eq]
  constructor
  · rintro ⟨hw, i, hi, ⟨rfl, rfl⟩, hlow⟩
    exact ⟨⟨hi, rfl⟩, hw, fun j hj => ⟨Nat.lt_trans hj hi, by simpa using hlow j hj⟩⟩
  · rintro ⟨⟨hk, rfl⟩, hw, hlow⟩
    exact ⟨hw, k, hk, ⟨rfl, rfl⟩, fun j hj => by simpa using (hlow j hj).2⟩

theorem stray?_eq_some_iff {low mid high : Word} :
    stray? (high ++ mid ++ low) = some (k, w) ↔
      (strayWords low mid high)[k]? = some w ∧ w ≠ 0 ∧
        ∀ j < k, (strayWords low mid high)[j]? = some 0 := by
  rw [← map_segmentOf_stray]
  exact find?_ne_zero_iff

-- ---------------------------------------------------------------------------
-- Faults
-- ---------------------------------------------------------------------------

theorem ofWords_of_length_ne (h : raw.length ≠ literalLength) :
    ofWords raw = .error (.segmentCount segmentCount (raw.length - 1)) := by
  unfold ofWords
  split
  · exact absurd rfl h
  · rfl

theorem Refused.ofWords_eq (h : Refused raw e) : ofWords raw = .error e := by
  cases h with
  | segmentCount hlen =>
    have hfound : max raw.length 1 - 1 = raw.length - 1 := by omega
    rw [ofWords_of_length_ne hlen, hfound]
  | counterOverflow hn => simp only [ofWords, if_pos hn]
  | countMismatch hn hcount =>
    simp only [ofWords, toNat_cpop_append, if_neg (Nat.not_lt.mpr hn), if_pos hcount]
  | strayBits hcount hk hw hlow =>
    have hn := Nat.not_lt.mpr (hcount.symm.trans_le (bitCount_le _ _ _))
    simp only [ofWords, toNat_cpop_append, if_neg hn, if_neg (not_not.mpr hcount),
      stray?_eq_some_iff.mpr ⟨hk, hw, hlow⟩]

theorem ofWords_eq_error_iff : ofWords raw = .error e ↔ Refused raw e := by
  refine ⟨fun h => ?_, Refused.ofWords_eq⟩
  by_cases hlen : raw.length = 4
  · obtain ⟨low, mid, high, n, rfl⟩ : ∃ low mid high n, raw = [low, mid, high, n] :=
      List.length_eq_four.mp hlen
    simp only [ofWords, toNat_cpop_append] at h
    split at h
    next hn =>
      cases h
      exact .counterOverflow hn
    next hn =>
    split at h
    next hcount =>
      cases h
      exact .countMismatch (Nat.not_lt.mp hn) hcount
    next hcount =>
    split at h
    next k w hstray =>
      cases h
      obtain ⟨hk, hw, hlow⟩ := stray?_eq_some_iff.mp hstray
      exact .strayBits (not_not.mp hcount) hk hw hlow
    · cases h
  · have hrefused : Refused raw _ := .segmentCount hlen
    rw [hrefused.ofWords_eq] at h
    cases h
    exact hrefused

-- ---------------------------------------------------------------------------
-- Sets
-- ---------------------------------------------------------------------------

theorem exists_ofWords_iff : (∃ s, ofWords raw = .ok s) ↔ Fitting raw := by
  unfold Fitting
  split
  next low mid high n =>
    simp only [ofWords_cons_eq_ok_iff]
    exact ⟨fun ⟨_, h, _⟩ => h, fun h => ⟨_, h, rfl⟩⟩
  next hshape =>
    refine iff_of_false ?_ not_false
    rintro ⟨s, h⟩
    exact hshape _ _ _ _ (ofWords_eq_ok_iff.mp h).2

theorem stored_verbatim (h : ofWords raw = .ok s) :
    s.segments.map BitVec.toNat ++ [s.count] = raw.map BitVec.toNat := by
  obtain ⟨hs, rfl⟩ := ofWords_eq_ok_iff.mp h
  simp [words, hs.toNat_ofNat_count]

theorem literal_eq_ok_iff : literal raw = .ok s ↔ ofWords raw = .ok s := by
  unfold literal
  cases ofWords raw <;> simp

theorem literal_eq_error_iff : literal raw = .error defect ↔ ∃ e, ofWords raw = .error e := by
  unfold literal
  cases ofWords raw <;> simp

theorem Refused.found_ne (h : Refused raw (.segmentCount expected found)) : found ≠ 3 := by
  cases h with
  | segmentCount hlen => omega

theorem Refused.bitCount_lt (h : Refused [low, mid, high, n] (.counterOverflow declared limit)) :
    bitCount low mid high < n.toNat := by
  cases h with
  | counterOverflow hn => exact Nat.lt_of_le_of_lt (bitCount_le low mid high) hn

theorem ofWords_exact (raw : List Word) :
    ((∃ s, ofWords raw = .ok s) ↔ Fitting raw) ∧
    (∀ s, ofWords raw = .ok s →
      s.segments.map BitVec.toNat ++ [s.count] = raw.map BitVec.toNat) ∧
    (∀ e, ofWords raw = .error e ↔ Refused raw e) ∧
    (∀ expected found, ofWords raw = .error (.segmentCount expected found) → found ≠ 3) ∧
    (∀ low mid high n declared limit, raw = [low, mid, high, n] →
      ofWords raw = .error (.counterOverflow declared limit) →
      bitCount low mid high < n.toNat) ∧
    (∀ s, literal raw = .ok s ↔ ofWords raw = .ok s) ∧
    ∀ defect, literal raw = .error defect ↔ ∃ e, ofWords raw = .error e := by
  refine ⟨exists_ofWords_iff, fun _ => stored_verbatim, fun _ => ofWords_eq_error_iff, ?_, ?_,
    fun _ => literal_eq_ok_iff, fun _ => literal_eq_error_iff⟩
  · exact fun _ _ h => (ofWords_eq_error_iff.mp h).found_ne
  · rintro low mid high n declared limit rfl h
    exact (ofWords_eq_error_iff.mp h).bitCount_lt

/-- Words with up to three faults, and the bits of the two ends of the alphabet. -/
theorem ofWords_exact_of_words :
    ofWords [0x00000001, 0, 0x00004000, 97] = .error (.counterOverflow 97 96) ∧
    ofWords [0x00000001, 0, 0x00004000, 3] = .error (.countMismatch 3 2) ∧
    ofWords [0x00000001, 0, 0x00004000, 2] = .error (.strayBits 0 1) ∧
    ofWords [0x00000002, 0, 0x0000E000, 4] = .error (.strayBits 2 0xC000) ∧
    literal [0x00000002, 0, 0x0000E000, 4] = .error .malformedLiteral ∧
    ofWords [] = .error (.segmentCount 3 0) ∧
    ∃ s, ofWords [0x00000002, 0, 0x00002000, 2] = .ok s ∧
      s.segments.map BitVec.toNat ++ [s.count] = [2, 0, 0x2000, 2] := by
  have hrefused (raw : List Word) := (ofWords_exact raw).2.2.1
  have hstray : Refused [0x00000002, 0, 0x0000E000, 4] (.strayBits 2 0xC000) :=
    .strayBits (by decide) (by decide) (by decide) (by decide)
  obtain ⟨hfitting, hverbatim, -⟩ := ofWords_exact [0x00000002, 0, 0x00002000, 2]
  obtain ⟨s, hs⟩ := hfitting.mpr ⟨by decide, by decide, by decide⟩
  refine ⟨(hrefused _ _).mpr (.counterOverflow (by decide)),
    (hrefused _ _).mpr (.countMismatch (by decide) (by decide)),
    (hrefused _ _).mpr (.strayBits (by decide) (by decide) (by decide) (by decide)),
    (hrefused _ _).mpr hstray, ?_, (hrefused _ _).mpr (.segmentCount (by decide)),
    s, hs, hverbatim s hs⟩
  obtain ⟨-, -, -, -, -, -, hliteral⟩ := ofWords_exact [0x00000002, 0, 0x0000E000, 4]
  exact (hliteral _).mpr ⟨_, (hrefused _ _).mpr hstray⟩

end Lookahead.TokenSet
