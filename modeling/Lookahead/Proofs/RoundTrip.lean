import Lookahead.Proofs.Reachable

/-!
# Writing and reading back

`literalText_lossless`: what is written for a set reads back as that set. Among
the texts that read as a set the one written for it is the canonical one, with
lower-case digits at full width, single spaces, and nothing else around.
-/

namespace Lookahead.TokenSet

open Text

-- ---------------------------------------------------------------------------
-- Canonical words
-- ---------------------------------------------------------------------------

/-- Eight lower-case digits after `0x`. -/
def HexWord (cs : List Char) : Prop :=
  ∃ ds, cs = '0' :: 'x' :: ds ∧ ds.length = 8 ∧ ∀ c ∈ ds, IsLower 16 c

/-- Decimal digits, with no zero in front of others. -/
def DecimalWord (cs : List Char) : Prop :=
  cs ≠ [] ∧ (∀ c ∈ cs, IsLower 10 c) ∧ (cs = ['0'] ∨ cs.head? ≠ some '0')

theorem hex_eq (w : Word) : ∃ k,
    Text.hex w = '0' :: 'x' :: (List.replicate k '0' ++ Nat.toDigits 16 w.toNat) ∧
      (List.replicate k '0' ++ Nat.toDigits 16 w.toNat).length = 8 := by
  have hlen : (Nat.toDigits 16 w.toNat).length ≤ 8 :=
    (Nat.length_toDigits_le_iff (by simp) (by simp)).mpr w.isLt
  refine ⟨8 - (Nat.toDigits 16 w.toNat).length, rfl, ?_⟩
  rw [List.length_append, List.length_replicate, Nat.sub_add_cancel hlen]

theorem hexWord_hex (w : Word) : HexWord (Text.hex w) := by
  obtain ⟨k, heq, hlen⟩ := hex_eq w
  refine ⟨_, heq, hlen, fun c hc => ?_⟩
  rcases List.mem_append.mp hc with hc | hc
  · exact ⟨0, by decide, List.eq_of_mem_replicate hc⟩
  · exact isLower_of_mem_toDigits (by simp) hc

theorem segmentSpelling_hex (w : Word) : SegmentSpelling (Text.hex w) w := by
  obtain ⟨k, heq, -⟩ := hex_eq w
  rw [heq]
  exact .lower (.plain ((digits_toDigits (by simp) w.toNat).replicate_zero k))

theorem HexWord.solid (h : HexWord cs) : Solid cs := by
  obtain ⟨ds, rfl, -, hds⟩ := h
  refine ⟨List.cons_ne_nil _ _, ?_⟩
  simpa using ⟨by decide, by decide, fun c hc => (hds c hc).solid (by simp)⟩

theorem DecimalWord.solid (h : DecimalWord cs) : Solid cs :=
  ⟨h.1, fun c hc => (h.2.1 c hc).solid (by simp)⟩

theorem HexWord.eq_hex (h : HexWord cs) (hs : SegmentSpelling cs w) : cs = Text.hex w := by
  obtain ⟨ds, rfl, hlen, hds⟩ := h
  obtain ⟨ds', heq, hlen', hds'⟩ := hexWord_hex w
  have hw := segmentSpelling_hex w
  rw [heq] at hw ⊢
  cases hs with
  | lower hs =>
    cases hw with
    | lower hw =>
      rw [(hs.digits (by simp) hds).eq_of_length_eq (hw.digits (by simp) hds') (by simp)
        hds hds' (hlen.trans hlen'.symm)]

theorem DecimalWord.eq_decimal (h : DecimalWord cs) (hs : Numeral 10 cs n) : cs = decimal n :=
  (hs.digits (by simp) h.2.1).eq_toDigits (by simp) (by simp) h.2.1 h.2.2

theorem decimalWord_decimal (n : Nat) : DecimalWord (decimal n) := by
  refine ⟨Nat.toDigits_ne_nil, fun c hc => isLower_of_mem_toDigits (by simp) hc, ?_⟩
  rcases Nat.eq_zero_or_pos n with rfl | hn
  · exact .inl rfl
  · exact .inr (head?_toDigits_ne (by simp) (by simp) hn)

-- ---------------------------------------------------------------------------
-- Canonical texts
-- ---------------------------------------------------------------------------

/-- A text in the one form in which sets are written. -/
def Canonical (text : List Char) : Prop :=
  ∃ w₀ w₁ w₂ w₃, HexWord w₀ ∧ HexWord w₁ ∧ HexWord w₂ ∧ DecimalWord w₃ ∧
    text = [',', ' '].intercalate [w₀, w₁, w₂, w₃]

theorem layout_intercalate_space {ws : List (List Char)} (hne : ws ≠ []) (hl : Blank l) :
    Layout ws (l ++ [',', ' '].intercalate ws) := by
  induction ws generalizing l with
  | nil => exact absurd rfl hne
  | cons w ws ih =>
    have hpad : Padded w (l ++ w) := ⟨l, [], hl, blank_nil, by simp⟩
    cases ws with
    | nil => simpa using Layout.last 0 hpad blank_nil
    | cons w' ws =>
      have hspace : Blank [' '] := by simp [Blank]
      rw [List.intercalate_cons_cons]
      simpa using Layout.cons hpad (ih (List.cons_ne_nil w' ws) hspace)

theorem toList_literalText (s : TokenSet) :
    s.literalText.toList = [',', ' '].intercalate [Text.hex (s.segment 0), Text.hex (s.segment 1),
      Text.hex (s.segment 2), decimal s.count] := by
  simp [literalText, segments, segmentCount, List.range_succ]

theorem canonical_literalText (s : TokenSet) : Canonical s.literalText.toList :=
  ⟨_, _, _, _, hexWord_hex _, hexWord_hex _, hexWord_hex _, decimalWord_decimal _,
    toList_literalText s⟩

theorem Consistent.parse_literalText (h : Consistent s) :
    (parse s.literalText).run.value = .ok s := by
  have hlayout := layout_intercalate_space (List.cons_ne_nil (Text.hex (s.segment 0))
    [Text.hex (s.segment 1), Text.hex (s.segment 2), decimal s.count]) blank_nil
  rw [List.nil_append, ← toList_literalText] at hlayout
  have hcount : CountSpelling (decimal s.count) (BitVec.ofNat 32 s.count) := by
    unfold CountSpelling
    rw [h.toNat_ofNat_count]
    exact .plain (digits_toDigits (by simp) s.count)
  have hspelled := spelled_iff.mpr ⟨_, _, _, _, rfl, segmentSpelling_hex (s.segment 0),
    segmentSpelling_hex (s.segment 1), segmentSpelling_hex (s.segment 2), hcount⟩
  rw [value_parse_of_spelled hlayout rfl hspelled]
  exact h.ofWords_words

theorem Canonical.literalText_eq {text : String} (h : Canonical text.toList)
    (hs : (parse text).run.value = .ok s) : s.literalText = text := by
  obtain ⟨w₀, w₁, w₂, w₃, h₀, h₁, h₂, h₃, htext⟩ := h
  obtain ⟨ws, raw, hl, hlen, hspelled, hraw⟩ := value_parse_eq_ok_iff.mp hs
  obtain ⟨hconsistent, rfl⟩ := ofWords_eq_ok_iff.mp hraw
  have hsolid : ∀ w ∈ [w₀, w₁, w₂, w₃], Solid w := by
    simpa using ⟨h₀.solid, h₁.solid, h₂.solid, h₃.solid⟩
  have hws : ws = [w₀, w₁, w₂, w₃] := by
    rw [← splitWords_of_solid hl (List.ne_nil_of_length_eq_add_one hlen) hspelled.solid, htext,
      ← List.nil_append (List.intercalate _ _),
      splitWords_of_solid (layout_intercalate_space (by simp) blank_nil) (by simp) hsolid]
  obtain ⟨_, _, _, _, heq, hs₀, hs₁, hs₂, hs₃⟩ := spelled_iff.mp hspelled
  rw [hws] at heq
  cases heq
  have hcount : w₃ = decimal s.count := by
    rw [h₃.eq_decimal hs₃, hconsistent.toNat_ofNat_count]
  rw [← String.toList_inj, toList_literalText, htext, h₀.eq_hex hs₀, h₁.eq_hex hs₁, h₂.eq_hex hs₂,
    hcount]

theorem literalText_lossless :
    (∀ s, Reachable s → (parse s.literalText).run.value = .ok s) ∧
    (∀ text s, (parse text).run.value = .ok s →
      (s.literalText = text ↔ Canonical text.toList)) ∧
    (∀ text text', (parse text).run.value.map literalText = .ok text' →
      Canonical text'.toList ∧ (parse text').run.value = (parse text).run.value ∧
      (parse text').run.value.map literalText = .ok text') ∧
    ∀ raw s, ofWords raw = .ok s → s.segments ++ [BitVec.ofNat 32 s.count] = raw := by
  refine ⟨fun s hs => hs.consistent.parse_literalText, ?_, ?_, ?_⟩
  · intro text s hs
    refine ⟨?_, fun h => h.literalText_eq hs⟩
    rintro rfl
    exact canonical_literalText s
  · intro text text' h
    cases hs : (parse text).run.value with
    | error e => rw [hs] at h; cases h
    | ok s =>
      rw [hs] at h
      cases h
      have hback := (Reachable.parse hs).consistent.parse_literalText
      refine ⟨canonical_literalText s, hback, ?_⟩
      rw [hback]
      rfl
  · intro raw s h
    exact (ofWords_eq_ok_iff.mp h).2.symm

theorem literalText_lossless_of_text :
    (parse " 0X10801048,0x50 ,0x0,+07,").run.value = .ok ⟨0x5010801048, 7⟩ ∧
    ¬ Canonical " 0X10801048,0x50 ,0x0,+07,".toList ∧
    Canonical "0x10801048, 0x00000050, 0x00000000, 7".toList ∧
    (parse "0x10801048, 0x00000050, 0x00000000, 7").run.value = .ok ⟨0x5010801048, 7⟩ ∧
    (⟨0x5010801048, 7⟩ : TokenSet).segments ++ [7] = [0x10801048, 0x50, 0, 7] := by
  have hread : (parse " 0X10801048,0x50 ,0x0,+07,").run.value = .ok ⟨0x5010801048, 7⟩ := by decide
  have hwritten : literalText ⟨0x5010801048, 7⟩ = "0x10801048, 0x00000050, 0x00000000, 7" := by
    decide
  obtain ⟨hback, hcanonical, hrewrite, hraw⟩ := literalText_lossless
  have hset := hback _ (.parse hread)
  rw [hwritten] at hset
  have hrewritten := hrewrite _ _ (congrArg (Except.map literalText) hread)
  rw [hwritten] at hrewritten
  refine ⟨hread, ?_, hrewritten.1, hset, hraw _ _ (by decide)⟩
  rw [← hcanonical _ _ hread, hwritten]
  decide

end Lookahead.TokenSet
