import Lookahead.Command.Check
import Lookahead.Proofs.Views

/-!
# What a check answers

The brackets of a row keep a text as it is, so a row is judged as its words are
(`run_check_bracketed`). A bare text loses the commas at its end twice. That makes no difference
unless blanks stand between them: then, and only then, is it not judged as it is read
(`check_bare`).
-/

namespace Lookahead

open Text

namespace TokenSet

/-- How many elements there are and which. -/
def summary (s : TokenSet) : String := toString s.count ++ " elements: " ++ s.expected ++ "\n"

/-- What is to be answered about a text that reads so. -/
def verdict (read : Except TokenSetError TokenSet) : Except CommandError String :=
  (read.mapError .literal).map summary

theorem run_check (text : String) :
    (check text).run = verdict <$> (parse (String.ofList (unwrapRow text.toList))).run := by
  have h (read : Attempt TokenSetError TokenSet) :
      (do let s ← read.adapt .literal; return s.summary : Attempt CommandError String).run =
        verdict <$> read.run := by
    have hadapt : (read.adapt CommandError.literal).run = Except.mapError .literal <$> read.run :=
      rfl
    rw [ExceptT.run_bind, hadapt, map_eq_pure_bind, map_eq_pure_bind, bind_assoc]
    refine bind_congr fun value => ?_
    rw [pure_bind]
    cases value <;> rfl
  exact h _

-- ---------------------------------------------------------------------------
-- Verdicts
-- ---------------------------------------------------------------------------

theorem dropWhile_summary (s : TokenSet) : s.summary.toList.dropWhile (· != ' ') =
    " elements: ".toList ++ s.expected.toList ++ ['\n'] := by
  have hdigits : ∀ c ∈ decimal s.count, (c != ' ') = true := by
    intro c hc
    rw [bne_iff_ne]
    rintro rfl
    simpa using ((decimalWord_decimal s.count).solid.2 ' ' hc).1
  have hsummary : s.summary.toList =
      decimal s.count ++ (" elements: ".toList ++ s.expected.toList ++ ['\n']) := by
    simp [summary, decimal]
  rw [hsummary, List.dropWhile_append_of_pos hdigits]
  rfl

theorem summary_inj (ha : Reachable a) (hb : Reachable b) (h : a.summary = b.summary) : a = b := by
  have hexpected := congrArg (fun text => text.toList.dropWhile (· != ' ')) h
  simp only [dropWhile_summary, List.append_left_inj, List.append_right_inj] at hexpected
  exact ha.consistent.eq_of_toList_eq hb.consistent
    (toList_eq_of_expected_eq (String.toList_inj.mp hexpected))

theorem verdict_parse_inj {a b : String}
    (h : verdict (parse a).run.value = verdict (parse b).run.value) :
    (parse a).run.value = (parse b).run.value := by
  cases ha : (parse a).run.value with
  | error e =>
    cases hb : (parse b).run.value with
    | error e' => rw [ha, hb] at h; cases h; rfl
    | ok t => rw [ha, hb] at h; cases h
  | ok s =>
    cases hb : (parse b).run.value with
    | error e => rw [ha, hb] at h; cases h
    | ok t =>
      rw [ha, hb] at h
      rw [summary_inj (.parse ha) (.parse hb) (Except.ok.inj h)]

/-- The words that a text must have had to read so. -/
def wordCount : Except TokenSetError TokenSet → Nat
  | .error (.segmentCount _ found) => found + 1
  | _ => literalLength

theorem wordCount_ofWords (h : raw.length = literalLength) :
    wordCount (ofWords raw) = literalLength := by
  cases hraw : ofWords raw with
  | ok s => rfl
  | error e =>
    cases ofWords_eq_error_iff.mp hraw with
    | segmentCount hne => exact absurd h hne
    | counterOverflow | countMismatch | strayBits => rfl

theorem wordCount_parse (text : String) :
    wordCount (parse text).run.value = (splitWords text.toList).length := by
  rw [value_parse]
  split
  next hlen =>
    cases hread : readWords 0 (splitWords text.toList) with
    | error e =>
      obtain ⟨k, rfl, -⟩ := readWords_eq_error_iff.mp hread
      exact hlen.symm
    | ok raw =>
      have hraw := (readWords_eq_ok_iff.mp hread).length_eq
      rw [hlen, ← wordCount_ofWords (hraw.symm.trans hlen)]
      rfl
  next =>
    have hpos : 0 < (splitWords text.toList).length := by
      simp [splitWords, List.length_pos_iff, List.splitOn_ne_nil]
    exact Nat.sub_add_cancel hpos

-- ---------------------------------------------------------------------------
-- Brackets
-- ---------------------------------------------------------------------------

/-- A text in the brackets of a row, with commas after them. -/
def bracketed (text : List Char) (k : Nat) : List Char :=
  rowOpening ++ text ++ rowClosing ++ List.replicate k ','

theorem toList_rowText (s : TokenSet) : s.rowText.toList = bracketed s.literalText.toList 1 := by
  simp [rowText, bracketed]

theorem padded_bracketed (text : String) :
    Padded (bracketed text.toList 0) ("token_set![" ++ text ++ "]").toList := by
  refine ⟨[], [], blank_nil, blank_nil, ?_⟩
  rw [String.toList_append, String.toList_append, bracketed, List.replicate_zero, List.append_nil,
    List.append_nil, List.nil_append]
  rfl

theorem dropEndWhile_bracketed (text : List Char) (k : Nat) :
    dropEndWhile (· == ',') (bracketed text k) = rowOpening ++ text ++ rowClosing := by
  rw [bracketed, dropEndWhile_append_of_forall (by simp)]
  exact dropEndWhile_append_singleton _ _ _

theorem trim_bracketed (text : List Char) (k : Nat) :
    trim (bracketed text k) = bracketed text k := by
  have hend : ∀ c ∈ rowClosing ++ List.replicate k ',', isBlank c = false := by
    intro c hc
    rcases List.mem_append.mp hc with hc | hc
    · obtain rfl := List.mem_singleton.mp hc
      decide
    · rw [List.eq_of_mem_replicate hc, isBlank_comma]
  have hstart : (bracketed text k).dropWhile isBlank = bracketed text k := rfl
  rw [trim, hstart, bracketed, List.append_assoc _ rowClosing,
    dropEndWhile_append_of_exists ⟨']', by simp [rowClosing], by decide⟩,
    dropEndWhile_eq_self hend]

theorem unwrapRow_bracketed (h : Padded (bracketed text k) cs) : unwrapRow cs = text := by
  have hopening : rowOpening.isPrefixOf? (rowOpening ++ text ++ rowClosing) =
      some (text ++ rowClosing) :=
    List.isPrefixOf?_eq_some_iff_append_eq.mpr (List.append_assoc ..).symm
  have hclosing : rowClosing.isSuffixOf? (text ++ rowClosing) = some text :=
    List.isSuffixOf?_eq_some_iff_append_eq.mpr rfl
  rw [unwrapRow, h.trim_eq, trim_bracketed]
  simp only [dropEndWhile_bracketed, hopening, hclosing, Option.bind_some, Option.getD_some]

theorem run_check_bracketed {row text : String} (h : Padded (bracketed text.toList k) row.toList) :
    (check row).run = verdict <$> (parse text).run := by
  rw [run_check, unwrapRow_bracketed h, String.ofList_toList]

-- ---------------------------------------------------------------------------
-- Bare texts
-- ---------------------------------------------------------------------------

/-- What is left of a text without brackets. -/
def stripped (cs : List Char) : List Char := dropEndWhile (· == ',') (trim cs)

theorem unwrapRow_bare (h : ¬ rowOpening <+: trim cs) : unwrapRow cs = stripped cs := by
  have hnone : rowOpening.isPrefixOf? (stripped cs) = none := by
    rw [Option.eq_none_iff_forall_ne_some]
    intro rest hrest
    have hstripped : rowOpening <+: stripped cs :=
      ⟨rest, List.append_eq_of_isPrefixOf?_eq_some hrest⟩
    exact h (hstripped.trans (List.rdropWhile_prefix _ _))
  rw [stripped] at hnone ⊢
  simp [unwrapRow, hnone]

/-- Blanks stand between the commas at the end of the text. -/
def Ragged (cs : List Char) : Prop :=
  ∃ body b k, trim cs = body ++ ',' :: b ++ List.replicate k ',' ∧ Blank b ∧ b ≠ []

theorem ragged_iff : Ragged cs ↔ ∃ body, dropEndWhile isBlank (stripped cs) = body ++ [','] := by
  constructor
  · rintro ⟨body, b, k, htrim, hb, hne⟩
    obtain ⟨c, hc⟩ := List.exists_mem_of_ne_nil b hne
    have hcomma := beq_comma_eq_false hb.comma_not_mem
    refine ⟨body, ?_⟩
    rw [stripped, htrim, dropEndWhile_append_of_forall (by simp), List.append_cons,
      dropEndWhile_append_of_exists ⟨c, hc, hcomma c hc⟩, dropEndWhile_eq_self hcomma,
      dropEndWhile_append_of_forall hb]
    exact dropEndWhile_append_singleton _ _ _
  · rintro ⟨body, hbody⟩
    obtain ⟨b, hb, hrow⟩ := exists_dropEndWhile_append isBlank (stripped cs)
    obtain ⟨k, htrim⟩ := exists_commas_append (trim cs)
    rw [hbody] at hrow
    refine ⟨body, b, k, ?_, hb, ?_⟩
    · rw [List.append_cons, ← hrow, stripped, ← htrim]
    · rintro rfl
      -- Without blanks the comma would have been dropped with the others.
      rw [List.append_nil, stripped, dropEndWhile_eq_rdropWhile] at hrow
      have hlast := List.rdropWhile_last_not (· == ',') (trim cs) (by simp [hrow])
      simp [hrow] at hlast

theorem exists_last_comma {cs : List Char} (h : ',' ∈ cs) :
    ∃ body last, cs = body ++ ',' :: last ∧ ',' ∉ last := by
  obtain ⟨last, body, hcs, hlast⟩ := List.eq_append_cons_of_mem (List.mem_reverse.mpr h)
  refine ⟨body.reverse, last.reverse, ?_, by simpa using hlast⟩
  simpa using congrArg List.reverse hcs

theorem map_trim_splitOn_append_right (hr : Blank r) (cs : List Char) :
    ((cs ++ r).splitOn ',').map trim = (cs.splitOn ',').map trim := by
  have hpiece (p : List Char) (hp : ',' ∉ p) :
      ((p ++ r).splitOn ',').map trim = (p.splitOn ',').map trim := by
    have htrim : trim (p ++ r) = trim p := trim_append blank_nil hr p
    rw [List.splitOn_eq_singleton hp,
      List.splitOn_eq_singleton (by simp [hp, hr.comma_not_mem]), List.map_singleton,
      List.map_singleton, htrim]
  by_cases h : ',' ∈ cs
  · obtain ⟨body, last, rfl, hlast⟩ := exists_last_comma h
    rw [List.append_assoc, List.cons_append, List.splitOn_append_cons_self,
      List.splitOn_append_cons_self, List.map_append, List.map_append, hpiece last hlast]
  · exact hpiece cs h

/-- Blanks behind the last word may be left to it. -/
theorem splitWords_eq_map_trim (cs : List Char) :
    splitWords cs = ((dropEndWhile isBlank (stripped cs)).splitOn ',').map trim := by
  obtain ⟨r, hr, hrow⟩ := exists_dropEndWhile_append isBlank (stripped cs)
  calc
    splitWords cs = ((stripped cs).splitOn ',').map trim := rfl
    _ = ((dropEndWhile isBlank (stripped cs) ++ r).splitOn ',').map trim := by rw [← hrow]
    _ = _ := map_trim_splitOn_append_right hr _

theorem splitWords_of_not_ragged (h : ¬ Ragged cs) : splitWords (stripped cs) = splitWords cs := by
  have hself : dropEndWhile (· == ',') (dropEndWhile isBlank (stripped cs)) =
      dropEndWhile isBlank (stripped cs) := by
    rw [dropEndWhile_eq_rdropWhile, List.rdropWhile_eq_self_iff]
    intro hne hlast
    have hbody := List.dropLast_append_getLast hne
    rw [beq_iff_eq.mp hlast] at hbody
    exact h (ragged_iff.mpr ⟨_, hbody.symm⟩)
  rw [splitWords_eq, hself, ← splitWords_eq_map_trim]

theorem length_splitOn (cs : List Char) : (cs.splitOn ',').length = cs.count ',' + 1 := by
  induction cs with
  | nil => rfl
  | cons c cs ih =>
    rw [List.splitOn_cons_eq_if_modifyHead]
    by_cases h : c = ',' <;> simp [h, ih]

theorem length_splitWords_of_ragged (h : Ragged cs) :
    (splitWords (stripped cs)).length < (splitWords cs).length := by
  obtain ⟨body, hbody⟩ := ragged_iff.mp h
  have hle : (dropEndWhile (· == ',') body).count ',' ≤ body.count ',' :=
    (List.rdropWhile_prefix _ _).sublist.count_le _
  rw [splitWords_eq_map_trim cs, splitWords_eq, hbody, dropEndWhile_append_singleton]
  simp [length_splitOn]
  omega

theorem value_parse_stripped (h : ¬ Ragged text.toList) :
    (parse (String.ofList (stripped text.toList))).run.value = (parse text).run.value := by
  rw [value_parse, value_parse, String.toList_ofList, splitWords_of_not_ragged h]

theorem value_parse_stripped_ne (h : Ragged text.toList) :
    (parse (String.ofList (stripped text.toList))).run.value ≠ (parse text).run.value := by
  intro heq
  have hcount := congrArg wordCount heq
  rw [wordCount_parse, wordCount_parse, String.toList_ofList] at hcount
  exact Nat.ne_of_lt (length_splitWords_of_ragged h) hcount

theorem not_ragged_of_parse (h : (parse text).run.value = .ok s) : ¬ Ragged text.toList := by
  intro hragged
  obtain ⟨body, hbody⟩ := ragged_iff.mp hragged
  obtain ⟨ws, raw, hl, hlen, hspelled, -⟩ := value_parse_eq_ok_iff.mp h
  have hempty : [] ∈ splitWords text.toList := by
    rw [splitWords_eq_map_trim, hbody, List.splitOn_append_cons_self]
    simp [trim, dropEndWhile_nil]
  rw [splitWords_of_solid hl (List.ne_nil_of_length_eq_add_one hlen) hspelled.solid] at hempty
  exact (hspelled.solid [] hempty).1 rfl

theorem check_bare (text : String) (h : ¬ rowOpening <+: trim text.toList) :
    (check text).run = verdict <$> (parse (String.ofList (stripped text.toList))).run ∧
    ((check text).run.value = verdict (parse text).run.value ↔ ¬ Ragged text.toList) ∧
    ((check ("token_set![" ++ text ++ "]")).run.value = (check text).run.value ↔
      ¬ Ragged text.toList) ∧
    ∀ s, (parse text).run.value = .ok s → (check text).run.value = .ok s.summary := by
  have hrun : (check text).run =
      verdict <$> (parse (String.ofList (stripped text.toList))).run := by
    rw [run_check, unwrapRow_bare h]
  have hvalue : (check text).run.value =
      verdict (parse (String.ofList (stripped text.toList))).run.value := by
    rw [hrun, Traced.value_map]
  have hiff : (check text).run.value = verdict (parse text).run.value ↔ ¬ Ragged text.toList := by
    rw [hvalue]
    constructor
    · intro heq hragged
      exact value_parse_stripped_ne hragged (verdict_parse_inj heq)
    · intro hragged
      rw [value_parse_stripped hragged]
  refine ⟨hrun, hiff, ?_, ?_⟩
  · rw [run_check_bracketed (padded_bracketed text), Traced.value_map, eq_comm]
    exact hiff
  · intro s hs
    rw [hiff.mpr (not_ragged_of_parse hs), hs]
    rfl

theorem check_bare_of_texts :
    ¬ rowOpening <+: trim " 0x100,0x0,0x0,1,,".toList ∧
    (check " 0x100,0x0,0x0,1,,").run.value = .ok (summary (.ofTokens [.DIV])) ∧
    ¬ rowOpening <+: trim "0x0,0x0,0x0,0, ,".toList ∧
    (check "0x0,0x0,0x0,0, ,").run.value ≠ verdict (parse "0x0,0x0,0x0,0, ,").run.value := by
  have htwice : ¬ rowOpening <+: trim " 0x100,0x0,0x0,1,,".toList := by decide
  have hblank : ¬ rowOpening <+: trim "0x0,0x0,0x0,0, ,".toList := by decide
  have hragged : Ragged "0x0,0x0,0x0,0, ,".toList :=
    ⟨"0x0,0x0,0x0,0".toList, [' '], 1, by decide, by simp [Blank], by simp⟩
  refine ⟨htwice, ?_, hblank, ?_⟩
  · exact (check_bare _ htwice).2.2.2 _ (by decide)
  · exact fun heq => (check_bare _ hblank).2.1.mp heq hragged

theorem check_blank_between_commas :
    ¬ rowOpening <+: trim "0x0,0x0,0x0,0, ,".toList ∧
    (parse "0x0,0x0,0x0,0, ,").run.value = .error (.segmentCount 3 4) ∧
    (check "0x0,0x0,0x0,0, ,").run.value = .ok "0 elements: nothing\n" ∧
    (check "token_set![0x0,0x0,0x0,0, ,]").run.value = .error (.literal (.segmentCount 3 4)) := by
  decide

end TokenSet

end Lookahead
