import Lookahead.Proofs.CommandLine
import Lookahead.Proofs.Dialects
import Mathlib.Data.List.Induction

/-!
# Options in order

Of the options for one switch the last decides, and without any the switch is as in classic
Modula-2. So an option can be left out if a later one is for the same switch, options for different
switches can change places, and of two lists one after the other the second overrides the first
switch by switch: `dialectFlags_last_wins`.
-/

namespace Lookahead

open DialectOption (spellings ofArgument? ofArgument?_eq_none_iff)

-- ---------------------------------------------------------------------------
-- One switch
-- ---------------------------------------------------------------------------

/-- Whether a switch is on after the arguments, of which one turns it on and one turns it off. -/
def enabledBy (on off : String) (before : Bool) (arguments : List String) : Bool :=
  ((arguments.filter (· ∈ [on, off])).getLast?.map (· == on)).getD before

section
variable {on off : String}

theorem enabledBy_append (before : Bool) (first second : List String) :
    enabledBy on off before (first ++ second) =
      enabledBy on off (enabledBy on off before first) second := by
  simp only [enabledBy, List.filter_append, List.getLast?_append]
  cases (second.filter (· ∈ [on, off])).getLast? <;> rfl

theorem enabledBy_of_notMem {arguments : List String} (h : ∀ a ∈ arguments, a ∉ [on, off])
    (before : Bool) : enabledBy on off before arguments = before := by
  have hnone : arguments.filter (· ∈ [on, off]) = [] :=
    List.filter_eq_nil_iff.mpr fun a ha hmem => h a ha (of_decide_eq_true hmem)
  rw [enabledBy, hnone]
  rfl

/-- Once there is an option for the switch, it does not matter how the switch was before. -/
theorem enabledBy_of_mem {arguments : List String} (h : ∃ a ∈ arguments, a ∈ [on, off])
    (before before' : Bool) :
    enabledBy on off before arguments = enabledBy on off before' arguments := by
  obtain ⟨a, ha, hmem⟩ := h
  have hne : arguments.filter (· ∈ [on, off]) ≠ [] :=
    List.ne_nil_of_mem (List.mem_filter.mpr ⟨ha, decide_eq_true hmem⟩)
  rw [enabledBy, enabledBy, List.getLast?_eq_some_getLast hne]
  rfl

theorem enabledBy_concat (before : Bool) (arguments : List String) (argument : String) :
    enabledBy on off before (arguments ++ [argument]) =
      if argument ∈ [on, off] then argument == on else enabledBy on off before arguments := by
  rw [enabledBy_append]
  by_cases h : argument ∈ [on, off]
  · have hlast : [argument].filter (· ∈ [on, off]) = [argument] :=
      List.filter_eq_self.mpr (by simpa using h)
    rw [if_pos h, enabledBy, hlast]
    rfl
  · rw [if_neg h, enabledBy_of_notMem (by simpa using h)]

end

-- ---------------------------------------------------------------------------
-- Both switches
-- ---------------------------------------------------------------------------

namespace DialectFlags

/-- The switches of a dialect, no other bit set. -/
def ofDialect (d : Dialect) : DialectFlags :=
  ⟨BitVec.setWidth 8 (BitVec.ofBool d.variantRecords ++ BitVec.ofBool d.constParameters)⟩

theorem contains_ofDialect (d : Dialect) :
    (ofDialect d).contains constParameters = d.constParameters ∧
      (ofDialect d).contains variantRecords = d.variantRecords ∧
      ∀ i, 2 ≤ i → (ofDialect d).bits.getLsbD i = false := by
  obtain ⟨c, v⟩ := d
  refine ⟨by revert c v; decide, by revert c v; decide, fun i hi => ?_⟩
  have hlt : (ofDialect ⟨c, v⟩).bits.toNat < 2 ^ 2 := by revert c v; decide
  exact Nat.testBit_lt_two_pow (Nat.lt_of_lt_of_le hlt (Nat.pow_le_pow_right (by decide) hi))

end DialectFlags

namespace DialectOption

/-- The switch that an argument is an option for. -/
def switch? (argument : String) : Option DialectFlags := (ofArgument? argument).map (·.switch)

/-- The options for the switch. -/
def spellingsOf (f : DialectFlags) : List String := spellings.filter (switch? · = some f)

theorem switch?_eq_none_iff : switch? argument = none ↔ argument ∉ spellings := by
  rw [switch?, Option.map_eq_none_iff, ofArgument?_eq_none_iff]

theorem mem_spellingsOf {f : DialectFlags} :
    argument ∈ spellingsOf f ↔ switch? argument = some f := by
  rw [spellingsOf, List.mem_filter, decide_eq_true_iff, and_iff_right_iff_imp]
  intro h
  by_contra hunknown
  rw [switch?_eq_none_iff.mpr hunknown] at h
  cases h

theorem spellingsOf_variantRecords :
    spellingsOf .variantRecords = ["--variant-records", "--no-variant-records"] := by decide

theorem spellingsOf_constParameters :
    spellingsOf .constParameters = ["--const-parameters", "--no-const-parameters"] := by decide

theorem apply_variantRecords (b : Bool) (d : Dialect) :
    apply ⟨.variantRecords, b⟩ (.ofDialect d) = .ofDialect { d with variantRecords := b } := by
  obtain ⟨c, v⟩ := d
  revert b c v
  decide

theorem apply_constParameters (b : Bool) (d : Dialect) :
    apply ⟨.constParameters, b⟩ (.ofDialect d) = .ofDialect { d with constParameters := b } := by
  obtain ⟨c, v⟩ := d
  revert b c v
  decide

end DialectOption

/-- The dialect after the arguments. -/
def dialectAfter (arguments : List String) : Dialect where
  constParameters := enabledBy "--const-parameters" "--no-const-parameters" false arguments
  variantRecords := enabledBy "--variant-records" "--no-variant-records" true arguments

/-- The switches after the arguments, those left out that are no options. -/
def flagsAfter (arguments : List String) : DialectFlags :=
  (arguments.filterMap ofArgument?).foldl (fun flags o => o.apply flags) .pim

theorem flagsAfter_eq (arguments : List String) :
    flagsAfter arguments = .ofDialect (dialectAfter arguments) := by
  -- From the back, as the last argument is applied to what those before it leave on.
  induction arguments using List.reverseRecOn with
  | nil => decide
  | append_singleton arguments argument ih =>
    rw [flagsAfter, List.filterMap_append, List.foldl_append, ← flagsAfter, ih]
    by_cases h : argument ∈ spellings
    · simp only [spellings, List.mem_cons, List.not_mem_nil, or_false] at h
      rcases h with rfl | rfl | rfl | rfl
      · refine (DialectOption.apply_variantRecords true _).trans ?_
        simp [dialectAfter, enabledBy_concat]
      · refine (DialectOption.apply_variantRecords false _).trans ?_
        simp [dialectAfter, enabledBy_concat]
      · refine (DialectOption.apply_constParameters true _).trans ?_
        simp [dialectAfter, enabledBy_concat]
      · refine (DialectOption.apply_constParameters false _).trans ?_
        simp [dialectAfter, enabledBy_concat]
    · rw [List.filterMap_cons_none (ofArgument?_eq_none_iff.mpr h)]
      simp only [spellings, List.mem_cons, List.not_mem_nil, or_false, not_or] at h
      simp [dialectAfter, enabledBy_concat, h]

-- ---------------------------------------------------------------------------
-- Arguments
-- ---------------------------------------------------------------------------

theorem run_dialectFlags (arguments : List String) :
    (dialectFlags arguments).run =
      match arguments.find? (· ∉ spellings) with
      | some argument => ⟨.error (.unknownOption argument), []⟩
      | none => ⟨.ok (flagsAfter arguments), [.dialect (flagsAfter arguments).enabledNames]⟩ := by
  cases hfirst : arguments.find? (· ∉ spellings) with
  | none =>
    have hall : ∀ a ∈ arguments, a ∈ spellings := by simpa using hfirst
    rw [dialectFlags, readOptions_eq_filterMap hall]
    rfl
  | some argument =>
    obtain ⟨hunknown, before, after, rfl, hbefore⟩ := List.find?_eq_some_iff_append.mp hfirst
    rw [dialectFlags, readOptions_append (by simpa using hbefore) (by simpa using hunknown)]
    rfl

open DialectOption (switch? spellingsOf switch?_eq_none_iff mem_spellingsOf)

theorem find?_notMem_spellings (arguments : List String) :
    arguments.find? (· ∉ spellings) = (arguments.filter (switch? · = none)).head? := by
  rw [List.head?_filter]
  congr 1
  funext a
  rw [decide_eq_decide, switch?_eq_none_iff]

theorem contains_flagsAfter (arguments : List String) :
    (flagsAfter arguments).contains .constParameters =
        enabledBy "--const-parameters" "--no-const-parameters" false arguments ∧
      (flagsAfter arguments).contains .variantRecords =
        enabledBy "--variant-records" "--no-variant-records" true arguments ∧
      ∀ i, 2 ≤ i → (flagsAfter arguments).bits.getLsbD i = false := by
  rw [flagsAfter_eq]
  exact DialectFlags.contains_ofDialect _

section
variable {on off : String} {f : DialectFlags} (hf : spellingsOf f = [on, off]) (initially : Bool)
include hf

theorem exists_mem_iff (arguments : List String) :
    (∃ a ∈ arguments, a ∈ [on, off]) ↔ ∃ a ∈ arguments, switch? a = some f := by
  simp only [← hf, mem_spellingsOf]

theorem enabledBy_of_filter_eq {first second : List String}
    (h : first.filter (switch? · = some f) = second.filter (switch? · = some f)) :
    enabledBy on off initially first = enabledBy on off initially second := by
  simp only [enabledBy, ← hf, mem_spellingsOf, h]

theorem enabledBy_cons_append {argument : String} {rest : List String}
    (h : switch? argument = some f → ∃ a ∈ rest, switch? a = some f) (before : List String) :
    enabledBy on off initially (before ++ argument :: rest) =
      enabledBy on off initially (before ++ rest) := by
  rw [List.append_cons, enabledBy_append initially (before ++ [argument]),
    enabledBy_append initially before rest]
  by_cases hmem : argument ∈ [on, off]
  · rw [← hf, mem_spellingsOf] at hmem
    exact enabledBy_of_mem ((exists_mem_iff hf rest).mpr (h hmem)) _ _
  · rw [enabledBy_concat, if_neg hmem]

theorem enabledBy_append_eq_ite (first second : List String) :
    enabledBy on off initially (first ++ second) =
      if ∃ a ∈ second, switch? a = some f then enabledBy on off initially second
      else enabledBy on off initially first := by
  have hiff := exists_mem_iff hf second
  rw [enabledBy_append]
  split
  next h => exact enabledBy_of_mem (hiff.mpr h) _ _
  next h => exact enabledBy_of_notMem (fun a ha hmem => h (hiff.mp ⟨a, ha, hmem⟩)) _

end

section
variable {first second : List String}

theorem flagsAfter_of_filter_eq
    (h : ∀ f, first.filter (switch? · = some f) = second.filter (switch? · = some f)) :
    flagsAfter first = flagsAfter second := by
  rw [flagsAfter_eq, flagsAfter_eq, dialectAfter, dialectAfter,
    enabledBy_of_filter_eq DialectOption.spellingsOf_constParameters false (h _),
    enabledBy_of_filter_eq DialectOption.spellingsOf_variantRecords true (h _)]

theorem run_dialectFlags_of_filter_eq
    (h : ∀ k, first.filter (switch? · = k) = second.filter (switch? · = k)) :
    (dialectFlags first).run = (dialectFlags second).run := by
  rw [run_dialectFlags, run_dialectFlags, find?_notMem_spellings, find?_notMem_spellings, h,
    flagsAfter_of_filter_eq fun f => h (some f)]

end

theorem run_dialectFlags_overridden {argument : String} {rest : List String}
    (h : switch? argument = some f) (hlater : ∃ a ∈ rest, switch? a = some f)
    (before : List String) :
    (dialectFlags (before ++ argument :: rest)).run = (dialectFlags (before ++ rest)).run := by
  have hknown : argument ∈ spellings := by
    by_contra hunknown
    rw [switch?_eq_none_iff.mpr hunknown] at h
    cases h
  have hlast {g : DialectFlags} (hg : switch? argument = some g) :
      ∃ a ∈ rest, switch? a = some g := by
    rwa [← hg, h]
  have hflags : flagsAfter (before ++ argument :: rest) = flagsAfter (before ++ rest) := by
    rw [flagsAfter_eq, flagsAfter_eq, dialectAfter, dialectAfter,
      enabledBy_cons_append DialectOption.spellingsOf_constParameters false hlast,
      enabledBy_cons_append DialectOption.spellingsOf_variantRecords true hlast]
  rw [run_dialectFlags, run_dialectFlags, hflags, List.find?_append, List.find?_append,
    List.find?_cons_of_neg (by simpa using hknown)]

theorem run_dialectFlags_of_known (h : ∀ a ∈ arguments, a ∈ spellings) :
    (dialectFlags arguments).run =
      ⟨.ok (flagsAfter arguments), [.dialect (flagsAfter arguments).enabledNames]⟩ := by
  have hnone : arguments.find? (· ∉ spellings) = none := by simpa using h
  rw [run_dialectFlags, hnone]

theorem run_dialectFlags_of_unknown (hbefore : ∀ a ∈ before, a ∈ spellings)
    (h : argument ∉ spellings) (after : List String) :
    (dialectFlags (before ++ argument :: after)).run =
      ⟨.error (.unknownOption argument), []⟩ := by
  have hfirst : (before ++ argument :: after).find? (· ∉ spellings) = some argument :=
    List.find?_eq_some_iff_append.mpr
      ⟨decide_eq_true h, before, after, rfl, by simpa using hbefore⟩
  rw [run_dialectFlags, hfirst]

/-- Either all arguments are options, or there is a first one that is none. -/
theorem known_or_first_unknown (arguments : List String) :
    (∀ a ∈ arguments, a ∈ spellings) ∨ ∃ before argument after,
      arguments = before ++ argument :: after ∧ (∀ a ∈ before, a ∈ spellings) ∧
        argument ∉ spellings := by
  by_cases h : ∀ a ∈ arguments, a ∈ spellings
  · exact .inl h
  · push Not at h
    obtain ⟨a, ha, hunknown⟩ := h
    exact .inr (exists_first_unknown ha hunknown)

theorem run_dialectFlags_eq_error_iff :
    (dialectFlags arguments).run.value = .error e ↔ ∃ before argument after,
      arguments = before ++ argument :: after ∧ (∀ a ∈ before, a ∈ spellings) ∧
        argument ∉ spellings ∧ e = .unknownOption argument := by
  constructor
  · intro h
    rcases known_or_first_unknown arguments with hall | ⟨before, argument, after, rfl, hbefore, hu⟩
    · rw [run_dialectFlags_of_known hall] at h
      cases h
    · rw [run_dialectFlags_of_unknown hbefore hu] at h
      cases h
      exact ⟨before, argument, after, rfl, hbefore, hu, rfl⟩
  · rintro ⟨before, argument, after, rfl, hbefore, hu, rfl⟩
    rw [run_dialectFlags_of_unknown hbefore hu]

theorem value_dialectFlags_eq_ok (h : (dialectFlags arguments).run.value = .ok flags) :
    (∀ a ∈ arguments, a ∈ spellings) ∧ flags = flagsAfter arguments := by
  rcases known_or_first_unknown arguments with hall | ⟨before, argument, after, rfl, hbefore, hu⟩
  · rw [run_dialectFlags_of_known hall] at h
    cases h
    exact ⟨hall, rfl⟩
  · rw [run_dialectFlags_of_unknown hbefore hu] at h
    cases h

theorem contains_flagsAfter_append (first second : List String) :
    ∀ f ∈ [DialectFlags.constParameters, .variantRecords],
      (flagsAfter (first ++ second)).contains f =
        if ∃ a ∈ second, switch? a = some f then (flagsAfter second).contains f
        else (flagsAfter first).contains f := by
  have hcontains (arguments : List String) := contains_flagsAfter arguments
  simp only [List.mem_cons, List.not_mem_nil, or_false]
  rintro f (rfl | rfl)
  · rw [(hcontains _).1, (hcontains _).1, (hcontains _).1]
    exact enabledBy_append_eq_ite DialectOption.spellingsOf_constParameters false first second
  · rw [(hcontains _).2.1, (hcontains _).2.1, (hcontains _).2.1]
    exact enabledBy_append_eq_ite DialectOption.spellingsOf_variantRecords true first second

theorem dialectFlags_last_wins :
    (∀ arguments : List String,
      ((∃ e, (dialectFlags arguments).run.value = .error e) ↔ ∃ a ∈ arguments, a ∉ spellings) ∧
      (∀ e, (dialectFlags arguments).run.value = .error e ↔ ∃ before argument after,
        arguments = before ++ argument :: after ∧ (∀ a ∈ before, a ∈ spellings) ∧
          argument ∉ spellings ∧ e = .unknownOption argument) ∧
      (∀ e, (dialectFlags arguments).run.value = .error e →
        (dialectFlags arguments).run.events = []) ∧
      ((∀ a ∈ arguments, a ∈ spellings) → ∃ flags,
        (dialectFlags arguments).run = ⟨.ok flags, [.dialect flags.enabledNames]⟩ ∧
        flags.contains .constParameters =
          enabledBy "--const-parameters" "--no-const-parameters" false arguments ∧
        flags.contains .variantRecords =
          enabledBy "--variant-records" "--no-variant-records" true arguments ∧
        ∀ i, 2 ≤ i → flags.bits.getLsbD i = false)) ∧
    (∀ f before argument rest, switch? argument = some f → (∃ a ∈ rest, switch? a = some f) →
      (dialectFlags (before ++ argument :: rest)).run = (dialectFlags (before ++ rest)).run) ∧
    (∀ first second, (∀ k, first.filter (switch? · = k) = second.filter (switch? · = k)) →
      (dialectFlags first).run = (dialectFlags second).run) ∧
    ∀ first second f g, (dialectFlags first).run.value = .ok f →
      (dialectFlags second).run.value = .ok g →
      ∃ flags, (dialectFlags (first ++ second)).run.value = .ok flags ∧
        (∀ s ∈ [DialectFlags.constParameters, .variantRecords], flags.contains s =
          if ∃ a ∈ second, switch? a = some s then g.contains s else f.contains s) ∧
        ∀ i, 2 ≤ i → flags.bits.getLsbD i = false := by
  refine ⟨fun arguments => ⟨?_, fun _ => run_dialectFlags_eq_error_iff, ?_, ?_⟩,
    fun _ before _ _ h hlater => run_dialectFlags_overridden h hlater before,
    fun _ _ => run_dialectFlags_of_filter_eq, ?_⟩
  · constructor
    · rintro ⟨e, he⟩
      obtain ⟨_, argument, _, rfl, -, hunknown, -⟩ := run_dialectFlags_eq_error_iff.mp he
      exact ⟨argument, by simp, hunknown⟩
    · rintro ⟨a, ha, hunknown⟩
      obtain ⟨before, argument, after, rfl, hbefore, hu⟩ := exists_first_unknown ha hunknown
      exact ⟨_, congrArg Traced.value (run_dialectFlags_of_unknown hbefore hu after)⟩
  · intro e he
    obtain ⟨before, argument, after, rfl, hbefore, hu, -⟩ := run_dialectFlags_eq_error_iff.mp he
    rw [run_dialectFlags_of_unknown hbefore hu]
  · intro hall
    exact ⟨flagsAfter arguments, run_dialectFlags_of_known hall, contains_flagsAfter arguments⟩
  · intro first second f g hfirst hsecond
    obtain ⟨hknown, rfl⟩ := value_dialectFlags_eq_ok hfirst
    obtain ⟨hknown', rfl⟩ := value_dialectFlags_eq_ok hsecond
    have hall : ∀ a ∈ first ++ second, a ∈ spellings := fun a ha =>
      (List.mem_append.mp ha).elim (hknown a) (hknown' a)
    refine ⟨flagsAfter (first ++ second), by rw [run_dialectFlags_of_known hall],
      contains_flagsAfter_append first second, (contains_flagsAfter _).2.2⟩

/-- Options that are overridden, and two lists in which only the second names variant records. -/
theorem dialectFlags_last_wins_of_arguments :
    (∃ flags, (dialectFlags ["--const-parameters", "--no-variant-records", "--variant-records",
        "--no-variant-records"]).run = ⟨.ok flags, [.dialect flags.enabledNames]⟩ ∧
      flags.contains .constParameters = true ∧ flags.contains .variantRecords = false ∧
      ∀ i, 2 ≤ i → flags.bits.getLsbD i = false) ∧
    (dialectFlags ["--variant-records", "--const-parameters", "--no-variant-records"]).run =
      (dialectFlags ["--const-parameters", "--no-variant-records"]).run ∧
    (dialectFlags ["--const-parameters", "--no-variant-records"]).run =
      (dialectFlags ["--no-variant-records", "--const-parameters"]).run ∧
    (∃ flags, (dialectFlags (["--const-parameters"] ++ ["--no-variant-records"])).run.value =
        .ok flags ∧
      flags.contains .constParameters = true ∧ flags.contains .variantRecords = false) ∧
    (dialectFlags ["--const-parameters", "--records", "-x"]).run.value =
      .error (.unknownOption "--records") ∧
    (dialectFlags ["--const-parameters", "--records", "-x"]).run.events = [] := by
  obtain ⟨hlists, hoverridden, hreordered, hjoined⟩ := dialectFlags_last_wins
  refine ⟨?_, ?_, ?_, ?_, ?_⟩
  · exact (hlists _).2.2.2 (by decide)
  · exact hoverridden .variantRecords [] _ _ (by decide) (by decide)
  · refine hreordered _ _ fun k => ?_
    have hconst : switch? "--const-parameters" = some .constParameters := rfl
    have hvariant : switch? "--no-variant-records" = some .variantRecords := rfl
    by_cases hk : some DialectFlags.constParameters = k
    · subst hk
      decide
    · simp [List.filter_cons, hconst, hvariant, hk]
  · obtain ⟨flags, hok, hswitches, -⟩ := hjoined ["--const-parameters"] ["--no-variant-records"]
      ⟨0b11⟩ ⟨0b00⟩ (by decide) (by decide)
    exact ⟨flags, hok, hswitches .constParameters (by decide), hswitches .variantRecords (by decide)⟩
  · have he := ((hlists ["--const-parameters", "--records", "-x"]).2.1 _).mpr
      ⟨["--const-parameters"], "--records", ["-x"], rfl, by decide, by decide, rfl⟩
    exact ⟨he, (hlists _).2.2.1 _ he⟩

end Lookahead
