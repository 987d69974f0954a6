import Lookahead.Proofs.Union
import Mathlib.Data.Set.List

/-!
# Sets of listed tokens

A list of tokens and the list of their ordinals give the same set, that of the tokens on the list.
`unknown` is left out of the first and refused in the second, as is every number that is no
element's. `lists_agree` says this with the members in order: they are the list sorted, without
repetitions.
-/

namespace Lookahead

namespace Token

/-- The list in the order of the alphabet, each token once. -/
def sorted (ts : List Token) : List Token :=
  (ts.mergeSort fun a b => a.ordinal ≤ b.ordinal).dedup

variable {ts us : List Token}

theorem mem_sorted : t ∈ sorted ts ↔ t ∈ ts := by
  rw [sorted, List.mem_dedup, List.mem_mergeSort]

theorem pairwise_sorted (ts : List Token) : (sorted ts).Pairwise (· < ·) := by
  have hle : (ts.mergeSort fun a b => a.ordinal ≤ b.ordinal).Pairwise
      fun a b => decide (a.ordinal ≤ b.ordinal) = true := by
    apply List.pairwise_mergeSort
    · intro a b c hab hbc
      exact decide_eq_true (Nat.le_trans (of_decide_eq_true hab) (of_decide_eq_true hbc))
    · intro a b
      simp [Nat.le_total]
  refine ((hle.sublist (List.dedup_sublist _)).and (List.nodup_dedup _)).imp ?_
  rintro a b ⟨hab, hne⟩
  exact Nat.lt_of_le_of_ne (of_decide_eq_true hab) fun h => hne (ordinal_injective h)

theorem eq_of_pairwise_lt (hts : ts.Pairwise (· < ·)) (hus : us.Pairwise (· < ·))
    (h : ∀ t, t ∈ ts ↔ t ∈ us) : ts = us := by
  have hinj : Function.Injective ordinal := fun _ _ => ordinal_injective
  have hordinals {l : List Token} (hl : l.Pairwise (· < ·)) :
      (l.map ordinal).Pairwise (· < ·) := List.pairwise_map.mpr hl
  apply List.map_injective_iff.mpr hinj
  refine (hordinals hts).eq_of_mem_iff (hordinals hus) fun n => ?_
  simp only [List.mem_map, h]

/-- Numbers that are ordinals of elements stand for tokens. -/
theorem exists_map_ordinal {ns : List Nat} (h : ∀ n ∈ ns, 1 ≤ n ∧ n ≤ 77) :
    ∃ ts : List Token, ts.map ordinal = ns := by
  have hrange : ns ∈ Set.range (List.map ordinal) := by
    rw [Set.range_list_map]
    exact fun n hn => exists_ordinal_eq (Nat.lt_succ_of_le (h n hn).2)
  exact hrange

end Token

namespace TokenSet

-- ---------------------------------------------------------------------------
-- Tokens
-- ---------------------------------------------------------------------------

theorem unknown_notMem (s : TokenSet) : .unknown ∉ s := nofun

theorem filter_ne_unknown {ts : List Token} (h : .unknown ∉ ts) :
    ts.filter (· ≠ .unknown) = ts :=
  List.filter_eq_self.mpr fun _ ht => decide_eq_true fun hu => h (hu ▸ ht)

theorem hasOrdinal_ofTokens {ts : List Token} :
    (ofTokens ts).hasOrdinal m = true ↔ ∃ t ∈ ts.filter (· ≠ .unknown), t.ordinal = m := by
  simp [hasOrdinal_iff, mem_ofTokens]

theorem toList_ofTokens (ts : List Token) :
    (ofTokens ts).toList = Token.sorted (ts.filter (· ≠ .unknown)) := by
  refine Token.eq_of_pairwise_lt (pairwise_toList _) (Token.pairwise_sorted _) fun t => ?_
  rw [mem_toList, mem_ofTokens, Token.mem_sorted, List.mem_filter, decide_eq_true_iff]

theorem ofTokens_eq_iff {ts us : List Token} :
    ofTokens us = ofTokens ts ↔ ∀ t ≠ .unknown, (t ∈ us ↔ t ∈ ts) := by
  constructor
  · intro h t ht
    have hmem : t ∈ ofTokens us ↔ t ∈ ofTokens ts := by rw [h]
    simpa [mem_ofTokens, ht] using hmem
  · intro h
    refine (consistent_ofTokens us).ext (consistent_ofTokens ts) fun t => ?_
    rw [mem_ofTokens, mem_ofTokens]
    exact and_congr_left (h t)

theorem Consistent.ofTokens_toList (h : Consistent s) : ofTokens s.toList = s := by
  refine (consistent_ofTokens _).ext h fun t => ?_
  rw [mem_ofTokens, mem_toList, and_iff_left_iff_imp]
  rintro ht rfl
  exact s.unknown_notMem ht

theorem unionOf_singletons {ts : List Token} (hne : ts ≠ []) :
    unionOf (ts.map fun t => ofTokens [t]) = .ok (ofTokens ts) := by
  obtain ⟨u, hu⟩ := exists_unionOf fun h => hne (List.map_eq_nil_iff.mp h)
  have hs : ∀ s ∈ ts.map fun t => ofTokens [t], Consistent s := by
    simpa using fun t _ => consistent_ofTokens [t]
  rw [hu, (consistent_unionOf hs hu).ext (consistent_ofTokens ts) fun t => ?_]
  simp [mem_unionOf hu, mem_ofTokens]

-- ---------------------------------------------------------------------------
-- Ordinals
-- ---------------------------------------------------------------------------

theorem ofOrdinals_eq_error_iff {ns : List Nat} :
    ofOrdinals ns = .error e ↔ ∃ before n after, ns = before ++ n :: after ∧
      (∀ m ∈ before, 1 ≤ m ∧ m ≤ 77) ∧ ¬ (1 ≤ n ∧ n ≤ 77) ∧ e = .ordinalOutOfRange n 77 := by
  have hbad (n : Nat) : (!isElementOrdinal n) = true ↔ ¬ (1 ≤ n ∧ n ≤ 77) := by
    rw [Bool.not_eq_true', ← Bool.not_eq_true, isElementOrdinal_iff]
  constructor
  · intro h
    unfold ofOrdinals at h
    split at h
    next n hn =>
      cases h
      obtain ⟨hout, before, after, rfl, hbefore⟩ := List.find?_eq_some_iff_append.mp hn
      refine ⟨before, n, after, rfl, fun m hm => ?_, (hbad n).mp hout, rfl⟩
      exact isElementOrdinal_iff.mp (by simpa using hbefore m hm)
    next => cases h
  · rintro ⟨before, n, after, rfl, hbefore, hout, rfl⟩
    have hfirst : (before ++ n :: after).find? (!isElementOrdinal ·) = some n := by
      refine List.find?_eq_some_iff_append.mpr
        ⟨(hbad n).mpr hout, before, after, rfl, fun m hm => ?_⟩
      rw [Bool.not_not, isElementOrdinal_iff]
      exact hbefore m hm
    rw [ofOrdinals, hfirst]

theorem exists_ofOrdinals_error_iff {ns : List Nat} :
    (∃ e, ofOrdinals ns = .error e) ↔ ∃ n ∈ ns, ¬ (1 ≤ n ∧ n ≤ 77) := by
  constructor
  · rintro ⟨e, he⟩
    obtain ⟨before, n, after, rfl, -, hout, -⟩ := ofOrdinals_eq_error_iff.mp he
    exact ⟨n, by simp, hout⟩
  · rintro ⟨n, hn, hout⟩
    cases h : ofOrdinals ns with
    | error e => exact ⟨e, rfl⟩
    | ok s => exact absurd (isElementOrdinal_iff.mp ((ofOrdinals_eq_ok_iff.mp h).1 n hn)) hout

theorem ofOrdinals_map_ordinal {ts : List Token} (h : .unknown ∉ ts) :
    ofOrdinals (ts.map Token.ordinal) = .ok (ofTokens ts) := by
  refine ofOrdinals_eq_ok_iff.mpr ⟨fun n hn => ?_, by rw [ofTokens_eq_ofBits, filter_ne_unknown h]⟩
  obtain ⟨t, ht, rfl⟩ := List.mem_map.mp hn
  exact isElementOrdinal_ordinal.mpr fun hu => h (hu ▸ ht)

-- ---------------------------------------------------------------------------
-- Both lists
-- ---------------------------------------------------------------------------

theorem lists_agree :
    (∀ ns : List Nat,
      ((∃ e, ofOrdinals ns = .error e) ↔ ∃ n ∈ ns, ¬ (1 ≤ n ∧ n ≤ 77)) ∧
      (∀ e, ofOrdinals ns = .error e ↔ ∃ before n after, ns = before ++ n :: after ∧
        (∀ m ∈ before, 1 ≤ m ∧ m ≤ 77) ∧ ¬ (1 ≤ n ∧ n ≤ 77) ∧ e = .ordinalOutOfRange n 77) ∧
      ((∀ n ∈ ns, 1 ≤ n ∧ n ≤ 77) → ∃ s ts, ofOrdinals ns = .ok s ∧
        ts.map Token.ordinal = ns ∧
        s.toList = Token.sorted ts ∧
        (∀ m, s.hasOrdinal m = true ↔ m ∈ ns) ∧
        s = ofTokens ts ∧
        (ns ≠ [] → unionOf (ts.map fun t => ofTokens [t]) = .ok s))) ∧
    (∀ ts : List Token,
      (ofTokens ts).toList = Token.sorted (ts.filter (· ≠ .unknown)) ∧
      ∀ us, ofTokens us = ofTokens ts ↔ ∀ t ≠ .unknown, (t ∈ us ↔ t ∈ ts)) ∧
    ∀ s, Reachable s → s.iter.drain.1 = s.toList ∧ ofTokens s.toList = s := by
  refine ⟨fun ns => ⟨exists_ofOrdinals_error_iff, fun _ => ofOrdinals_eq_error_iff, fun h => ?_⟩,
    fun ts => ⟨toList_ofTokens ts, fun _ => ofTokens_eq_iff⟩,
    fun s hr => ⟨hr.consistent.drain_iter, hr.consistent.ofTokens_toList⟩⟩
  obtain ⟨ts, rfl⟩ := Token.exists_map_ordinal h
  have hunknown : .unknown ∉ ts := fun hmem =>
    absurd (h _ (List.mem_map_of_mem hmem)).1 (by decide)
  have hall : ts.filter (· ≠ .unknown) = ts := filter_ne_unknown hunknown
  refine ⟨ofTokens ts, ts, ofOrdinals_map_ordinal hunknown, rfl, ?_, fun m => ?_, rfl, ?_⟩
  · rw [toList_ofTokens, hall]
  · rw [hasOrdinal_ofTokens, hall, List.mem_map]
  · exact fun hne => unionOf_singletons fun hnil => hne (hnil ▸ rfl)

/-- The ends of all segments, out of order and repeated, and a list with two numbers too large. -/
theorem lists_agree_of_ordinals :
    (∃ s, ofOrdinals [77, 64, 31, 1, 63, 32, 31] = .ok s ∧
      s.toList = [.AND, .REPEAT, .RETURN, .assign, .comma, .endOfFile] ∧
      (∀ m, s.hasOrdinal m = true ↔ m ∈ [77, 64, 31, 1, 63, 32, 31]) ∧
      ofTokens [.unknown, .AND, .REPEAT, .unknown, .RETURN, .assign, .comma, .endOfFile] = s ∧
      ofTokens s.toList = s) ∧
    ofOrdinals [77, 78, 0] = .error (.ordinalOutOfRange 78 77) := by
  obtain ⟨hordinals, htokens, hreloaded⟩ := lists_agree
  constructor
  · obtain ⟨s, ts, hs, hts, hlist, hhas, rfl, -⟩ :=
      (hordinals [77, 64, 31, 1, 63, 32, 31]).2.2 (by decide)
    obtain rfl : ts = [.endOfFile, .comma, .REPEAT, .AND, .assign, .RETURN, .REPEAT] :=
      List.map_injective_iff.mpr (fun _ _ => Token.ordinal_injective) (hts.trans (by decide))
    refine ⟨_, hs, ?_, hhas, ?_, (hreloaded _ (.ofTokens _)).2⟩
    · rw [hlist]
      refine Token.eq_of_pairwise_lt (Token.pairwise_sorted _) (by decide) fun t => ?_
      simp only [Token.mem_sorted, List.mem_cons]
      tauto
    · refine ((htokens _).2 _).mpr fun t ht => ?_
      simp only [List.mem_cons, ht, List.not_mem_nil, or_false, false_or]
      tauto
  · exact ((hordinals [77, 78, 0]).2.1 _).mpr
      ⟨[77], 78, [0], rfl, by decide, by decide, rfl⟩

end TokenSet

end Lookahead
