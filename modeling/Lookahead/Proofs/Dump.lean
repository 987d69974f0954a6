import Lookahead.Command.Line
import Lookahead.Proofs.Check

/-!
# What is written for a table

Below each label of a dump stands a row of a reachable set, and there is nothing else but comments.
`check_row`: a row is judged as what stands between its brackets, so the one written for a set names
that set, and no two sets are judged alike.
-/

namespace Lookahead

open Text

-- ---------------------------------------------------------------------------
-- Lines
-- ---------------------------------------------------------------------------

/-- A text of whole lines, each of one kind. -/
def Lines (P : List Char → Prop) (text : String) : Prop :=
  ∃ lines : List (List Char), text.toList = lines.flatMap (· ++ ['\n']) ∧
    ∀ line ∈ lines, '\n' ∉ line ∧ P line

theorem splitOn_flatMap_newline {lines : List (List Char)} (h : ∀ line ∈ lines, '\n' ∉ line) :
    (lines.flatMap (· ++ ['\n'])).splitOn '\n' = lines ++ [[]] := by
  induction lines with
  | nil => rfl
  | cons line lines ih =>
    rw [List.flatMap_cons, List.append_assoc, List.singleton_append,
      List.splitOn_append_cons_self_of_not_mem (h line List.mem_cons_self),
      ih fun l hl => h l (List.mem_cons_of_mem line hl), List.cons_append]

theorem Lines.of_mem_splitOn (h : Lines P text) (hline : line ∈ text.toList.splitOn '\n') :
    line = [] ∨ P line := by
  obtain ⟨lines, htext, hlines⟩ := h
  rw [htext, splitOn_flatMap_newline fun l hl => (hlines l hl).1] at hline
  rcases List.mem_append.mp hline with hline | hline
  · exact .inr (hlines line hline).2
  · exact .inl (List.mem_singleton.mp hline)

theorem Lines.append (ha : Lines P a) (hb : Lines P b) : Lines P (a ++ b) := by
  obtain ⟨as, ha, has⟩ := ha
  obtain ⟨bs, hb, hbs⟩ := hb
  refine ⟨as ++ bs, by rw [String.toList_append, ha, hb, List.flatMap_append], ?_⟩
  intro line hline
  rcases List.mem_append.mp hline with hline | hline
  · exact has line hline
  · exact hbs line hline

theorem Lines.join {f : α → String} (h : ∀ a, Lines P (f a)) (as : List α) :
    Lines P (String.join (as.map f)) := by
  induction as with
  | nil => exact ⟨[], rfl, by simp⟩
  | cons a as ih =>
    rw [List.map_cons, String.join_cons]
    exact (h a).append ih

namespace TokenSet

theorem Solid.newline_notMem (h : Solid w) : '\n' ∉ w := by
  intro hc
  have hblank : isBlank '\n' = false := (h.2 _ hc).1
  revert hblank
  decide

theorem newline_notMem_rowText (s : TokenSet) : '\n' ∉ s.rowText.toList := by
  have hopening : '\n' ∉ rowOpening := by decide
  have hclosing : '\n' ∉ rowClosing := by decide
  have hhex (k : Nat) : '\n' ∉ Text.hex (s.segment k) := (hexWord_hex _).solid.newline_notMem
  have hdecimal : '\n' ∉ decimal s.count := (decimalWord_decimal _).solid.newline_notMem
  rw [toList_rowText, toList_literalText]
  simp [bracketed, hopening, hclosing, hhex, hdecimal]

theorem toList_labelledRow (label : String) (s : TokenSet) : (labelledRow label s).toList =
    [("// " ++ label).toList, s.rowText.toList].flatMap (· ++ ['\n']) := by
  simp [labelledRow]

theorem splitOn_labelledRow (label : String) (s : TokenSet) (h : '\n' ∉ label.toList) :
    (labelledRow label s).toList.splitOn '\n' =
      [("// " ++ label).toList, s.rowText.toList, []] := by
  rw [toList_labelledRow, splitOn_flatMap_newline (by simp [h, newline_notMem_rowText])]
  rfl

end TokenSet

-- ---------------------------------------------------------------------------
-- Dumps
-- ---------------------------------------------------------------------------

theorem Production.newline_notMem_name (p : Production) : '\n' ∉ p.name.toList := by
  obtain ⟨cs, hname, hcs⟩ : ∃ cs, p.name = String.ofList cs ∧ '\n' ∉ cs := by
    cases p <;> exact ⟨_, rfl, by decide⟩
  simpa [hname] using hcs

theorem ResyncPoint.newline_notMem_name (p : ResyncPoint) : '\n' ∉ p.name.toList := by
  obtain ⟨cs, hname, hcs⟩ : ∃ cs, p.name = String.ofList cs ∧ '\n' ∉ cs := by
    cases p <;> exact ⟨_, rfl, by decide⟩
  simpa [hname] using hcs

namespace TokenSet

/-- A comment, or the row of a reachable set. -/
def DumpLine (line : List Char) : Prop :=
  "//".toList <+: line ∨ ∃ s, Reachable s ∧ line = s.rowText.toList

theorem lines_comment (line : List Char) (htext : text.toList = line ++ ['\n'])
    (hline : '\n' ∉ line) (h : "//".toList <+: line) : Lines DumpLine text :=
  ⟨[line], by simpa using htext, by simpa using ⟨hline, .inl h⟩⟩

theorem lines_labelledRow (hl : '\n' ∉ label.toList) (hs : Reachable s) :
    Lines DumpLine (labelledRow label s) := by
  have hlabel : '\n' ∉ ("// " ++ label).toList := by simpa using hl
  refine ⟨_, toList_labelledRow label s, List.forall_mem_cons.mpr ⟨⟨hlabel, ?_⟩,
    List.forall_mem_singleton.mpr ⟨newline_notMem_rowText s, .inr ⟨s, hs, rfl⟩⟩⟩⟩
  exact .inl ⟨' ' :: label.toList, by simp⟩

theorem lines_dump (target : DumpTarget) : Lines DumpLine (dump target) := by
  cases target with
  | grammar table =>
    have hcanonical : Lines DumpLine "// --- canonical rows ---\n" :=
      lines_comment "// --- canonical rows ---".toList (by decide) (by decide) (by decide)
    have halternate : Lines DumpLine "// --- alternate rows ---\n" :=
      lines_comment "// --- alternate rows ---".toList (by decide) (by decide) (by decide)
    have hcanonicals : ∀ p, Lines DumpLine (labelledRow p.name (table.canonical p)) := fun p =>
      lines_labelledRow p.newline_notMem_name (table.reachable_canonical p)
    have halternates : ∀ p, Lines DumpLine (labelledRow p.name (table.alternate p)) := fun p =>
      lines_labelledRow p.newline_notMem_name (table.reachable_alternate p)
    exact ((hcanonical.append (.join hcanonicals _)).append halternate).append
      (.join halternates _)
  | resync =>
    exact .join (fun p => lines_labelledRow p.newline_notMem_name p.reachable_resync) _

-- ---------------------------------------------------------------------------
-- Rows
-- ---------------------------------------------------------------------------

theorem check_rowText (h : Reachable s) : (check s.rowText).run.value = .ok s.summary := by
  have hbrackets : Padded (bracketed s.literalText.toList 1) s.rowText.toList :=
    ⟨[], [], blank_nil, blank_nil, by simp [toList_rowText]⟩
  rw [run_check_bracketed hbrackets, Traced.value_map, h.consistent.parse_literalText]
  rfl

theorem run_check_rowText (h : Reachable s) {arguments : List String}
    (hrow : " ".intercalate arguments = s.rowText) :
    CommandLine.run ("check" :: arguments) = ⟨0, s.summary, ""⟩ := by
  cases arguments with
  | nil =>
    have hopening : rowOpening ≠ [] := by decide
    have hempty := congrArg String.toList hrow
    rw [toList_rowText] at hempty
    simp [bracketed, hopening] at hempty
  | cons word rest =>
    have hrun : CommandLine.run ("check" :: word :: rest) =
        CommandLine.ofAnswer (check (" ".intercalate (word :: rest))).run.value := rfl
    rw [hrun, hrow, check_rowText h]
    rfl

theorem check_row :
    (∀ (row text : String) (k : Nat), Padded (bracketed text.toList k) row.toList →
      (check row).run = verdict <$> (parse text).run) ∧
    (∀ s, Reachable s →
      (∀ label : String, '\n' ∉ label.toList →
        (labelledRow label s).toList.splitOn '\n' =
          [("// " ++ label).toList, s.rowText.toList, []]) ∧
      (check s.rowText).run.value = .ok s.summary ∧
      (∀ t, Reachable t → (check t.rowText).run.value = (check s.rowText).run.value → t = s) ∧
      ∀ arguments : List String, " ".intercalate arguments = s.rowText →
        CommandLine.run ("check" :: arguments) = ⟨0, s.summary, ""⟩) ∧
    ∀ target, ∀ line ∈ (dump target).toList.splitOn '\n', line = [] ∨ DumpLine line := by
  refine ⟨fun row text k h => run_check_bracketed h, fun s hs => ?_,
    fun target line hline => (lines_dump target).of_mem_splitOn hline⟩
  refine ⟨fun label hlabel => splitOn_labelledRow label s hlabel, check_rowText hs, ?_,
    fun arguments hrow => run_check_rowText hs hrow⟩
  intro t ht heq
  rw [check_rowText ht, check_rowText hs] at heq
  exact summary_inj ht hs (Except.ok.inj heq)

theorem check_row_of_set :
    Reachable (.ofTokens [.DIV]) ∧
    (check "\u00a0token_set![0x100,0x0 ,+01,],,, ").run.value =
      .error (.literal (.segmentCount 3 2)) ∧
    (labelledRow "Div" (.ofTokens [.DIV])).toList.splitOn '\n' =
      ["// Div".toList, "token_set![0x00000100, 0x00000000, 0x00000000, 1],".toList, []] ∧
    CommandLine.run ["check", "token_set![0x00000100,", "0x00000000, 0x00000000,", "1],"] =
      ⟨0, "1 elements: `DIV`\n", ""⟩ ∧
    (check (rowText (.ofTokens [.DIV]))).run.value ≠ (check (rowText ∅)).run.value := by
  have hset : Reachable (.ofTokens [.DIV]) := .ofTokens _
  have htext : rowText (.ofTokens [.DIV]) =
      "token_set![0x00000100, 0x00000000, 0x00000000, 1]," := by decide +kernel
  have hsummary : summary (.ofTokens [.DIV]) = "1 elements: `DIV`\n" := by decide
  obtain ⟨hlines, -, -, hrun⟩ := check_row.2.1 _ hset
  have hempty := (check_row.2.1 _ .empty).2.2.1 _ hset
  rw [htext, hsummary] at hrun
  refine ⟨hset, ?_, ?_, hrun _ (by decide), fun heq => ?_⟩
  · have hrow : Padded (bracketed "0x100,0x0 ,+01,".toList 3)
        "\u00a0token_set![0x100,0x0 ,+01,],,, ".toList :=
      ⟨['\u00a0'], [' '], by simp [Blank]; decide, by simp [Blank], by decide⟩
    have hbroken := congrArg Traced.value (check_row.1 _ _ _ hrow)
    rw [Traced.value_map] at hbroken
    exact hbroken.trans (by decide)
  · have hlabel : "// " ++ "Div" = "// Div" := by decide
    have hdiv := hlines "Div" (by decide)
    rwa [hlabel, htext] at hdiv
  · exact absurd (hempty heq) (by decide)

end TokenSet

end Lookahead
