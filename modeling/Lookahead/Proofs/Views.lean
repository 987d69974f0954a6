import Lookahead.Proofs.Members
import Lookahead.Proofs.RoundTrip
import Lookahead.TokenSet.Listing
import Mathlib.Tactic.TFAE

/-!
# What the views of a set tell apart

A phrase of alternatives can be read back because no name holds a quote, and a listing because
labels hold neither blanks nor commas. With distinct names and labels every view of a set
determines it: `views_tfae`.
-/

namespace Lookahead

-- ---------------------------------------------------------------------------
-- Names and labels
-- ---------------------------------------------------------------------------

theorem Token.name_injective : Function.Injective Token.name := by
  have h : (all.map name).Nodup := by decide +kernel
  exact fun a b hab => List.inj_on_of_nodup_map h (mem_all a) (mem_all b) hab

theorem Token.label_injective : Function.Injective Token.label := by
  have h : (all.map label).Nodup := by decide +kernel
  exact fun a b hab => List.inj_on_of_nodup_map h (mem_all a) (mem_all b) hab

theorem Token.quote_notMem_name (t : Token) : '\x60' ∉ t.name.toList := by
  -- Characters are taken off the literal as they stand, so no text is decoded in the cases.
  obtain ⟨cs, hname, hcs⟩ : ∃ cs, t.name = String.ofList cs ∧ '\x60' ∉ cs := by
    cases t <;> exact ⟨_, rfl, by decide⟩
  simpa [hname] using hcs

theorem Token.solid_label (t : Token) : TokenSet.Solid t.label.toList := by
  obtain ⟨cs, hlabel, hne, hcs⟩ : ∃ cs, t.label = String.ofList cs ∧ cs ≠ [] ∧
      (cs.all fun c => !Text.isBlank c && c != ',') = true := by
    cases t <;> exact ⟨_, rfl, by decide, by decide⟩
  rw [hlabel, String.toList_ofList]
  exact ⟨hne, by simpa using hcs⟩

-- ---------------------------------------------------------------------------
-- Reading phrases back
-- ---------------------------------------------------------------------------

namespace Text

/-- Every other entry, from the second on. -/
def everyOther : List α → List α
  | _ :: b :: rest => b :: everyOther rest
  | _ => []

/-- What stands between quotes in a text. Cut at the quotes, every other piece was quoted. -/
def quoted (cs : List Char) : List (List Char) := everyOther (cs.splitOn '\x60')

theorem quoted_of_notMem (h : '\x60' ∉ cs) : quoted cs = [] := by
  simp [quoted, List.splitOn_eq_singleton h, everyOther]

end Text

namespace TokenSet

open Text

theorem quoted_quote (pre : List Char) (hpre : '\x60' ∉ pre) (hname : '\x60' ∉ name.toList)
    (rest : List Char) :
    quoted (pre ++ (quote name).toList ++ rest) = name.toList :: quoted rest := by
  simp [quoted, quote, List.splitOn_append_cons_self_of_not_mem, hpre, hname, everyOther]

theorem quoted_intercalate_quote {names : List String} (hne : names ≠ [])
    (hnames : ∀ n ∈ names, '\x60' ∉ n.toList) (pre : List Char) (hpre : '\x60' ∉ pre)
    (rest : List Char) :
    quoted (pre ++ (", ".intercalate (names.map quote)).toList ++ rest) =
      names.map String.toList ++ quoted rest := by
  induction names generalizing pre with
  | nil => exact absurd rfl hne
  | cons name names ih =>
    have hname := hnames name List.mem_cons_self
    cases names with
    | nil => simpa using quoted_quote pre hpre hname rest
    | cons next names =>
      have htail := ih (by simp) (fun n hn => hnames n (List.mem_cons_of_mem name hn))
        [',', ' '] (by simp)
      have h := quoted_quote pre hpre hname
        ([',', ' '] ++ (", ".intercalate ((next :: names).map quote)).toList ++ rest)
      rw [htail] at h
      simpa [List.intercalate_cons_cons] using h

theorem quoted_alternatives {names : List String} (hnames : ∀ n ∈ names, '\x60' ∉ n.toList) :
    quoted (alternatives names).toList = names.map String.toList := by
  unfold alternatives
  split
  · exact quoted_of_notMem (by decide)
  · next a =>
    simpa [quoted_of_notMem] using quoted_quote [] (by simp) (hnames a (by simp)) []
  · next a b =>
    -- Each phrase is read from its front, so the last name comes first in the proof.
    have hb := quoted_quote " or ".toList (by decide) (hnames b (by simp)) []
    have ha := quoted_quote [] (by simp) (hnames a (by simp))
      (" or ".toList ++ (quote b).toList ++ [])
    rw [hb] at ha
    simpa [quoted_of_notMem] using ha
  · next hnil hone _ =>
    obtain ⟨init, last, rfl⟩ := List.eq_nil_or_concat names |>.resolve_left hnil
    have hinit : init ≠ [] := by
      rintro rfl
      exact hone last rfl
    have hlast := quoted_quote ", or ".toList (by decide) (hnames last (by simp)) []
    have h := quoted_intercalate_quote hinit (fun n hn => hnames n (by simp [hn])) [] (by simp)
      (", or ".toList ++ (quote last).toList ++ [])
    rw [hlast] at h
    simpa [quoted_of_notMem] using h

/-- The names in the phrase of a set can be read back. -/
theorem quoted_expected (s : TokenSet) :
    quoted s.expected.toList = s.toList.map fun t => t.name.toList := by
  rw [expected, quoted_alternatives, names, List.map_map]
  · rfl
  · intro n hn
    obtain ⟨t, -, rfl⟩ := List.mem_map.mp hn
    exact t.quote_notMem_name

theorem toList_eq_of_expected_eq {a b : TokenSet} (h : a.expected = b.expected) :
    a.toList = b.toList := by
  have hnames := congrArg (fun text => quoted text.toList) h
  simp only [quoted_expected] at hnames
  exact List.map_injective_iff.mpr (fun _ _ ht => Token.name_injective (String.toList_inj.mp ht))
    hnames

-- ---------------------------------------------------------------------------
-- Reading listings back
-- ---------------------------------------------------------------------------

theorem splitWords_intercalate (ws : List (List Char)) (hws : ∀ w ∈ ws, Solid w) :
    (splitWords ([',', ' '].intercalate ws)).filter (· ≠ []) = ws := by
  by_cases hne : ws = []
  · subst hne
    simp [splitWords, trim, dropEndWhile_nil]
  · have hlayout := layout_intercalate_space hne blank_nil
    rw [splitWords_of_solid (by simpa using hlayout) hne hws]
    simpa using fun w hw => (hws w hw).1

theorem toList_eq_of_listing_eq {a b : TokenSet} (h : a.listing = b.listing) :
    a.toList = b.toList := by
  have htext (s : TokenSet) : s.listing.toList =
      '\x7b' :: ([',', ' '].intercalate (s.toList.map fun t => t.label.toList) ++ ['\x7d']) := by
    simp [listing, Function.comp_def]
  have hback (s : TokenSet) := splitWords_intercalate (s.toList.map fun t => t.label.toList)
    (by simpa using fun t _ => t.solid_label)
  rw [← String.toList_inj, htext, htext, List.cons.injEq, List.append_left_inj] at h
  have hlabels := hback a
  rw [h.2, hback b] at hlabels
  exact List.map_injective_iff.mpr (fun _ _ ht => Token.label_injective (String.toList_inj.mp ht))
    hlabels.symm

-- ---------------------------------------------------------------------------
-- Views
-- ---------------------------------------------------------------------------

theorem Consistent.eq_of_toList_eq (ha : Consistent a) (hb : Consistent b)
    (h : a.toList = b.toList) : a = b :=
  ha.ext hb fun t => by rw [← mem_toList, h, mem_toList]

theorem views_tfae (ha : Reachable a) (hb : Reachable b) :
    [a = b,
      a.segments = b.segments ∧ a.count = b.count,
      ∀ n : Word, a.hasOrdinal n.toNat = b.hasOrdinal n.toNat,
      a.toList = b.toList,
      a.iter.drain.1 = b.iter.drain.1,
      a.literalText = b.literalText,
      a.listing = b.listing,
      a.expected = b.expected].TFAE := by
  have hca := ha.consistent
  have hcb := hb.consistent
  tfae_have 1 → 2 := by rintro rfl; exact ⟨rfl, rfl⟩
  tfae_have 2 → 1 := by
    rintro ⟨hsegments, hcount⟩
    have hwords : a.words = b.words := by rw [words, words, hsegments, hcount]
    have hback := hca.ofWords_words
    rw [hwords, hcb.ofWords_words] at hback
    exact (Except.ok.inj hback).symm
  tfae_have 1 → 3 := by rintro rfl _; rfl
  tfae_have 3 → 1 := by
    intro h
    refine hca.ext hcb fun t => ?_
    rw [← hasOrdinal_ordinal, ← hasOrdinal_ordinal, ← toNat_ofNat_ordinal t, h]
  tfae_have 1 → 4 := by rintro rfl; rfl
  tfae_have 4 → 1 := hca.eq_of_toList_eq hcb
  tfae_have 4 ↔ 5 := by rw [hca.drain_iter, hcb.drain_iter]
  tfae_have 1 → 6 := by rintro rfl; rfl
  tfae_have 6 → 1 := by
    intro h
    have hback := hca.parse_literalText
    rw [h, hcb.parse_literalText] at hback
    exact (Except.ok.inj hback).symm
  tfae_have 1 → 7 := by rintro rfl; rfl
  tfae_have 7 → 4 := toList_eq_of_listing_eq
  tfae_have 1 → 8 := by rintro rfl; rfl
  tfae_have 8 → 4 := toList_eq_of_expected_eq
  tfae_finish

theorem views_tfae_of_tokens :
    Reachable (ofTokens [.comma, .bar]) ∧ Reachable (ofTokens [.comma, .endOfFile]) ∧
    (ofTokens [.comma, .bar]).literalText ≠ (ofTokens [.comma, .endOfFile]).literalText ∧
    (ofTokens [.comma, .bar]).listing ≠ (ofTokens [.comma, .endOfFile]).listing ∧
    (ofTokens [.comma, .bar]).expected ≠ (ofTokens [.comma, .endOfFile]).expected := by
  have ha : Reachable (ofTokens [.comma, .bar]) := .ofTokens _
  have hb : Reachable (ofTokens [.comma, .endOfFile]) := .ofTokens _
  have hne : ofTokens [.comma, .bar] ≠ ofTokens [.comma, .endOfFile] := by decide
  have h := views_tfae ha hb
  exact ⟨ha, hb, mt (h.out 5 0).mp hne, mt (h.out 6 0).mp hne, mt (h.out 7 0).mp hne⟩

end TokenSet

end Lookahead
