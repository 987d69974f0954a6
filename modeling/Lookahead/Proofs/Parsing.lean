import Lookahead.Proofs.Spelling
import Lookahead.Proofs.Words

/-!
# The texts that are read

`parse_iff_accepted`: the texts taken are those that show three segments and an
element count, spelled and laid out as the grammar allows, where the four fit
together. `parse_agrees_with_ofWords`: a text that shows words is taken or
refused as the words are, and only the words are reported on.
-/

namespace Lookahead.TokenSet

open Text

theorem value_parse (text : String) :
    (parse text).run.value =
      if (splitWords text.toList).length = literalLength then
        (readWords 0 (splitWords text.toList)).bind ofWords
      else .error (.segmentCount segmentCount ((splitWords text.toList).length - 1)) := by
  unfold parse
  simp only
  by_cases hlen : (splitWords text.toList).length = literalLength
  · simp only [hlen, ne_eq, not_true_eq_false, if_true, if_false]
    cases hread : readWords 0 (splitWords text.toList) with
    | error e => rfl
    | ok raw =>
      simp only [Except.bind]
      cases hraw : ofWords raw with
      | error e => rfl
      | ok s => rfl
  · simp only [hlen, ne_eq, not_false_eq_true, if_true, if_false]
    rfl

theorem value_parse_of_spelled {text : String} (hl : Layout ws text.toList)
    (hlen : ws.length = literalLength) (hs : Spelled 0 ws raw) :
    (parse text).run.value = ofWords raw := by
  have hne : ws ≠ [] := List.ne_nil_of_length_eq_add_one hlen
  rw [value_parse, splitWords_of_solid hl hne hs.solid, if_pos hlen, readWords_eq_ok_iff.mpr hs]
  rfl

theorem value_parse_of_length_ne {text : String} (hl : Layout ws text.toList)
    (hlen : ws.length ≠ literalLength) (hws : ∀ w ∈ ws, Visible w) :
    (parse text).run.value = .error (.segmentCount segmentCount (ws.length - 1)) := by
  cases ws with
  | nil =>
    rw [value_parse, splitWords_of_layout_nil hl]
    rfl
  | cons w ws =>
    rw [value_parse, splitWords_of_layout hl (List.cons_ne_nil w ws) hws, List.length_map,
      if_neg hlen]

theorem value_parse_eq_ok_iff {text : String} {s : TokenSet} :
    (parse text).run.value = .ok s ↔
      ∃ ws raw, Layout ws text.toList ∧ ws.length = literalLength ∧ Spelled 0 ws raw ∧
        ofWords raw = .ok s := by
  constructor
  · intro h
    rw [value_parse] at h
    split at h
    next hlen =>
      cases hread : readWords 0 (splitWords text.toList) with
      | error e => rw [hread] at h; cases h
      | ok raw =>
        rw [hread] at h
        exact ⟨_, raw, layout_splitWords _, hlen, readWords_eq_ok_iff.mp hread, h⟩
    next => cases h
  · rintro ⟨ws, raw, hl, hlen, hs, hraw⟩
    rw [value_parse_of_spelled hl hlen hs, hraw]

-- ---------------------------------------------------------------------------
-- The grammar
-- ---------------------------------------------------------------------------

/-- A text that shows three segments and an element count that fit together. -/
structure Accepted (text : List Char) (low mid high n : Word) : Prop where
  spelled : ∃ w₀ w₁ w₂ w₃, Layout [w₀, w₁, w₂, w₃] text ∧
    SegmentSpelling w₀ low ∧ SegmentSpelling w₁ mid ∧ SegmentSpelling w₂ high ∧
    CountSpelling w₃ n
  count_eq : low.cpop.toNat + mid.cpop.toNat + high.cpop.toNat = n.toNat
  unknown_clear : low.getLsbD 0 = false
  past_clear : high.toNat < 2 ^ 14

theorem parse_iff_accepted (text : String) :
    ((∃ s, (parse text).run.value = .ok s) ↔
      ∃ low mid high n, Accepted text.toList low mid high n) ∧
    ∀ s, (parse text).run.value = .ok s ↔
      ∃ low mid high n, Accepted text.toList low mid high n ∧
        s.segments = [low, mid, high] ∧ s.count = n.toNat := by
  have hiff (s : TokenSet) : (parse text).run.value = .ok s ↔
      ∃ low mid high n, Accepted text.toList low mid high n ∧
        s.segments = [low, mid, high] ∧ s.count = n.toNat := by
    rw [value_parse_eq_ok_iff]
    constructor
    · rintro ⟨ws, raw, hl, hlen, hs, hraw⟩
      obtain ⟨low, mid, high, n, rfl⟩ : ∃ low mid high n, raw = [low, mid, high, n] :=
        ⟨_, _, _, _, (ofWords_eq_ok_iff.mp hraw).2⟩
      obtain ⟨w₀, w₁, w₂, w₃, rfl, hspelled⟩ := spelled_iff.mp hs
      obtain ⟨⟨hcount, hlow, hhigh⟩, heq⟩ := ofWords_cons_eq_ok_iff.mp hraw
      exact ⟨low, mid, high, n, ⟨⟨w₀, w₁, w₂, w₃, hl, hspelled⟩, hcount, hlow, hhigh⟩,
        eq_append_iff.mp heq⟩
    · rintro ⟨low, mid, high, n, ⟨⟨w₀, w₁, w₂, w₃, hl, hspelled⟩, hcount, hlow, hhigh⟩, hs⟩
      exact ⟨_, _, hl, rfl, spelled_iff.mpr ⟨w₀, w₁, w₂, w₃, rfl, hspelled⟩,
        ofWords_cons_eq_ok_iff.mpr ⟨⟨hcount, hlow, hhigh⟩, eq_append_iff.mpr hs⟩⟩
  refine ⟨⟨?_, ?_⟩, hiff⟩
  · rintro ⟨s, hs⟩
    obtain ⟨low, mid, high, n, haccepted, -⟩ := (hiff s).mp hs
    exact ⟨low, mid, high, n, haccepted⟩
  · rintro ⟨low, mid, high, n, haccepted⟩
    exact ⟨⟨high ++ mid ++ low, n.toNat⟩,
      (hiff _).mpr ⟨low, mid, high, n, haccepted, eq_append_iff.mp rfl⟩⟩

-- A blank between the last commas makes one more word.
example : (parse "0x0,0x0,0x0,0, ,").run.value = .error (.segmentCount 3 4) := by decide

-- ---------------------------------------------------------------------------
-- Agreement with the stored words
-- ---------------------------------------------------------------------------

/-- Words of a text that show stored words. What they are matters only where there are four. -/
def Shows (ws : List (List Char)) (raw : List Word) : Prop :=
  raw.length = literalLength ∧ Spelled 0 ws raw ∨
    raw.length ≠ literalLength ∧ ws.length = raw.length ∧ ∀ w ∈ ws, Visible w

theorem value_parse_of_shows {text : String} (hl : Layout ws text.toList) (h : Shows ws raw) :
    (parse text).run.value = ofWords raw := by
  rcases h with ⟨hlen, hs⟩ | ⟨hlen, heq, hws⟩
  · exact value_parse_of_spelled hl (hs.length_eq.trans hlen) hs
  · rw [value_parse_of_length_ne hl (by rwa [heq]) hws, ofWords_of_length_ne hlen, heq]

theorem ofWords_error (h : ofWords raw = .error e) :
    (∀ position, e ≠ .malformedWord position) ∧
      (∀ ordinal max, e ≠ .ordinalOutOfRange ordinal max) ∧ e ≠ .emptyUnion := by
  cases ofWords_eq_error_iff.mp h <;> simp

theorem value_parse_error {text : String} (h : (parse text).run.value = .error e) :
    (∃ position, e = .malformedWord position) ∨ ∃ raw, ofWords raw = .error e := by
  rw [value_parse] at h
  split at h
  · cases hread : readWords 0 (splitWords text.toList) with
    | error e' =>
      rw [hread] at h
      cases h
      obtain ⟨k, rfl, -⟩ := readWords_eq_error_iff.mp hread
      exact .inl ⟨_, rfl⟩
    | ok raw =>
      rw [hread] at h
      exact .inr ⟨raw, h⟩
  next hlen =>
    cases h
    refine .inr ⟨List.replicate (splitWords text.toList).length 0, ?_⟩
    rw [ofWords_of_length_ne (by simpa using hlen), List.length_replicate]

theorem value_parse_eq_malformedWord_iff {text : String}
    (hlen : (splitWords text.toList).length = literalLength) :
    (parse text).run.value = .error (.malformedWord position) ↔
      MalformedAt 0 (splitWords text.toList) position ∧
        ∀ j < position, ¬ MalformedAt 0 (splitWords text.toList) j := by
  have hread : (parse text).run.value = .error (.malformedWord position) ↔
      readWords 0 (splitWords text.toList) = .error (.malformedWord position) := by
    rw [value_parse, if_pos hlen]
    cases readWords 0 (splitWords text.toList) with
    | error e => simp [Except.bind]
    | ok raw => simpa [Except.bind] using fun hraw => (ofWords_error hraw).1 position rfl
  rw [hread, readWords_eq_error_iff]
  constructor
  · rintro ⟨k, he, hk, hleast⟩
    obtain rfl : position = 0 + k := TokenSetError.malformedWord.inj he
    rw [Nat.zero_add]
    exact ⟨hk, hleast⟩
  · rintro ⟨hk, hleast⟩
    exact ⟨position, by rw [Nat.zero_add], hk, hleast⟩

theorem parse_agrees_with_ofWords :
    (∀ (raw : List Word) (ws : List (List Char)) (text : String),
      Layout ws text.toList → Shows ws raw → (parse text).run.value = ofWords raw) ∧
    ∀ text : String,
      Layout (splitWords text.toList) text.toList ∧
      ((splitWords text.toList).length ≠ literalLength →
        (parse text).run.value =
          .error (.segmentCount segmentCount ((splitWords text.toList).length - 1))) ∧
      ((splitWords text.toList).length = literalLength → ∀ position,
        (parse text).run.value = .error (.malformedWord position) ↔
          MalformedAt 0 (splitWords text.toList) position ∧
            ∀ j < position, ¬ MalformedAt 0 (splitWords text.toList) j) ∧
      (∀ ordinal max, (parse text).run.value ≠ .error (.ordinalOutOfRange ordinal max)) ∧
      (parse text).run.value ≠ .error .emptyUnion := by
  refine ⟨fun raw ws text hl h => value_parse_of_shows hl h, fun text => ?_⟩
  refine ⟨layout_splitWords _, ?_, fun hlen _ => value_parse_eq_malformedWord_iff hlen, ?_, ?_⟩
  · intro hlen
    rw [value_parse, if_neg hlen]
  · intro ordinal max he
    rcases value_parse_error he with ⟨_, h⟩ | ⟨_, hraw⟩
    · cases h
    · exact (ofWords_error hraw).2.1 ordinal max rfl
  · intro he
    rcases value_parse_error he with ⟨_, h⟩ | ⟨_, hraw⟩
    · cases h
    · exact (ofWords_error hraw).2.2 rfl

theorem parse_agrees_with_ofWords_of_texts :
    (parse "\u00a00X+010801048 ,0x50,0X0,+07,, ").run.value =
      ofWords [0x10801048, 0x50, 0, 7] ∧
    (parse " ,,, ").run.value = ofWords [] ∧
    (parse "0x1,,0x0,9").run.value = .error (.malformedWord 1) := by
  refine ⟨?_, ?_, ?_⟩
  · have hsplit : splitWords "\u00a00X+010801048 ,0x50,0X0,+07,, ".toList =
        ["0X+010801048".toList, "0x50".toList, "0X0".toList, "+07".toList] := by decide
    have hlayout := layout_splitWords "\u00a00X+010801048 ,0x50,0X0,+07,, ".toList
    rw [hsplit] at hlayout
    exact parse_agrees_with_ofWords.1 _ _ _ hlayout
      (.inl ⟨rfl, readWords_eq_ok_iff.mp (by decide)⟩)
  · have hlayout : Layout [] " ,,, ".toList :=
      .none 3 (p := [' ']) (b := [' ']) (by simp [Blank]) (by simp [Blank])
    exact parse_agrees_with_ofWords.1 _ _ _ hlayout (.inr ⟨by decide, rfl, by simp⟩)
  · refine ((parse_agrees_with_ofWords.2 _).2.2.1 (by decide) 1).mpr ⟨?_, ?_⟩
    · refine ⟨[], by decide, fun w hw => ?_⟩
      exact hw.solid.1 rfl
    · intro j hj hbad
      obtain rfl : j = 0 := by omega
      obtain ⟨cs, hcs, hbad⟩ := hbad
      have hword : (splitWords "0x1,,0x0,9".toList)[0]? = some "0x1".toList := by decide
      obtain rfl : cs = "0x1".toList := Option.some.inj (hcs.symm.trans hword)
      exact hbad 1 (readWord_eq_some_iff.mp (by decide))

end Lookahead.TokenSet
