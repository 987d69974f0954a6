import Lookahead.Command.Line
import Mathlib.Data.List.Nodup

/-!
# How a command line ends

Either the whole text of a command is printed and nothing else, or the arguments are refused with
status 1 and nothing of a text is printed. `run_all_or_nothing` says which arguments are refused and
which fault is reported where there are several.
-/

namespace Lookahead

-- ---------------------------------------------------------------------------
-- Names
-- ---------------------------------------------------------------------------

namespace Production

theorem name_injective : Function.Injective name := by
  have h : (all.map name).Nodup := by decide +kernel
  exact fun a b hab => List.inj_on_of_nodup_map h (mem_all a) (mem_all b) hab

theorem ofName?_eq_some_iff {s : String} : ofName? s = some p ↔ p.name = s := by
  have hname {p : Production} (h : ofName? s = some p) : p.name = s := by
    simpa using List.find?_some h
  refine ⟨hname, ?_⟩
  rintro rfl
  cases h : ofName? p.name with
  | none => simpa using List.find?_eq_none.mp h p p.mem_all
  | some q => rw [name_injective (hname h)]

end Production

theorem readProduction_name (p : Production) : readProduction p.name = .ok p := by
  rw [readProduction, Production.ofName?_eq_some_iff.mpr rfl]

theorem readProduction_of_unknown {name : String} (h : ∀ p : Production, p.name ≠ name) :
    readProduction name = .error (.unknownProduction name) := by
  have hnone : Production.ofName? name = none :=
    Option.eq_none_iff_forall_ne_some.mpr fun p hp => h p (Production.ofName?_eq_some_iff.mp hp)
  rw [readProduction, hnone]

namespace DumpTarget

/-- The tables that can be printed, by the names they are asked for with. -/
def named : List (String × DumpTarget) :=
  [("first", .grammar .first), ("follow", .grammar .follow), ("resync", .resync)]

def names : List String := named.map Prod.fst

theorem ofName_of_named (h : (name, target) ∈ named) : ofName name = .ok target := by
  simp only [named, List.mem_cons, Prod.mk.injEq, List.not_mem_nil, or_false] at h
  rcases h with ⟨rfl, rfl⟩ | ⟨rfl, rfl⟩ | ⟨rfl, rfl⟩ <;> rfl

theorem exists_named (h : name ∈ names) : ∃ target, (name, target) ∈ named := by
  obtain ⟨⟨_, target⟩, hmem, rfl⟩ := List.mem_map.mp h
  exact ⟨target, hmem⟩

theorem ofName_of_unknown (h : name ∉ names) : ofName name = .error (.unknownTable name) := by
  simp only [names, named, List.map_cons, List.map_nil, List.mem_cons, List.not_mem_nil, or_false,
    not_or] at h
  simp [ofName, h]

end DumpTarget

-- ---------------------------------------------------------------------------
-- Options
-- ---------------------------------------------------------------------------

namespace DialectOption

def spellings : List String :=
  ["--variant-records", "--no-variant-records", "--const-parameters", "--no-const-parameters"]

theorem ofArgument?_eq_none_iff : ofArgument? argument = none ↔ argument ∉ spellings := by
  simp only [spellings, List.mem_cons, List.not_mem_nil, or_false, not_or]
  constructor
  · intro h
    refine ⟨?_, ?_, ?_, ?_⟩ <;> rintro rfl <;> cases h
  · intro h
    simp [ofArgument?, h]

end DialectOption

open DialectOption (spellings ofArgument?_eq_none_iff)

/-- What stands behind the first unknown option is not read. -/
theorem readOptions_append (hbefore : ∀ a ∈ before, a ∈ spellings) (h : argument ∉ spellings)
    (after : List String) :
    readOptions (before ++ argument :: after) = .error (.unknownOption argument) := by
  induction before with
  | nil => simp [readOptions, ofArgument?_eq_none_iff.mpr h]
  | cons first before ih =>
    have hrest := ih fun a ha => hbefore a (List.mem_cons_of_mem first ha)
    cases ho : DialectOption.ofArgument? first with
    | none => exact absurd (hbefore first List.mem_cons_self) (ofArgument?_eq_none_iff.mp ho)
    | some o =>
      rw [List.cons_append, readOptions, ho, hrest]
      rfl

theorem readOptions_eq_filterMap (h : ∀ a ∈ arguments, a ∈ spellings) :
    readOptions arguments = .ok (arguments.filterMap DialectOption.ofArgument?) := by
  induction arguments with
  | nil => rfl
  | cons first arguments ih =>
    have hrest := ih fun a ha => h a (List.mem_cons_of_mem first ha)
    cases ho : DialectOption.ofArgument? first with
    | none => exact absurd (h first List.mem_cons_self) (ofArgument?_eq_none_iff.mp ho)
    | some o =>
      rw [readOptions, ho, hrest, List.filterMap_cons_some ho]
      rfl

theorem exists_first_unknown (h : argument ∈ arguments) (hunknown : argument ∉ spellings) :
    ∃ before first after, arguments = before ++ first :: after ∧
      (∀ a ∈ before, a ∈ spellings) ∧ first ∉ spellings := by
  have hfound : (arguments.find? (· ∉ spellings)).isSome :=
    List.find?_isSome.mpr ⟨argument, h, decide_eq_true hunknown⟩
  obtain ⟨first, hfirst⟩ := Option.isSome_iff_exists.mp hfound
  obtain ⟨hnot, before, after, rfl, hbefore⟩ := List.find?_eq_some_iff_append.mp hfirst
  exact ⟨before, first, after, rfl, by simpa using hbefore, by simpa using hnot⟩

theorem Attempt.value_bind (x : Attempt ε α) (f : α → Attempt ε β) :
    (x >>= f).run.value = x.run.value.bind fun a => (f a).run.value := by
  rw [ExceptT.run_bind, Traced.value_bind]
  cases x.run.value <;> rfl

theorem value_dialectFlags (arguments : List String) : (dialectFlags arguments).run.value =
    (readOptions arguments).map fun options =>
      options.foldl (fun flags o => o.apply flags) DialectFlags.pim := by
  unfold dialectFlags
  cases readOptions arguments <;> rfl

namespace CommandLine

theorem value_showAnswer (name : String) (options : List String) :
    (showAnswer name options).run.value = (readProduction name).bind fun p =>
      (dialectFlags options).run.value.map fun flags => (showProduction p flags).value := by
  have hread : (MonadExcept.ofExcept (readProduction name) :
      Attempt CommandError Production).run.value = readProduction name := by
    cases readProduction name <;> rfl
  rw [showAnswer, Attempt.value_bind, hread]
  congr 1
  funext p
  rw [Attempt.value_bind]
  cases (dialectFlags options).run.value <;> rfl

-- ---------------------------------------------------------------------------
-- Arguments
-- ---------------------------------------------------------------------------

def commands : List String := ["dump", "show", "check", "productions", "help", "--help", "-h"]

/-- The commands that need an operand. -/
def operandCommands : List String := ["dump", "show", "check"]

/-- The text that is printed for arguments without a fault. -/
inductive Answered : List String → String → Prop
  | usage : Answered [] usage
  | help (h : command ∈ ["help", "--help", "-h"]) (rest : List String) :
    Answered (command :: rest) usage
  | productions (rest : List String) : Answered ("productions" :: rest) listProductions
  | dumped (h : (name, target) ∈ DumpTarget.named) (rest : List String) :
    Answered ("dump" :: name :: rest) (dump target)
  | shown (p : Production) (h : (dialectFlags options).run.value = .ok flags) :
    Answered ("show" :: p.name :: options) (showProduction p flags).value
  | checked (hne : words ≠ []) (h : (check (" ".intercalate words)).run.value = .ok text) :
    Answered ("check" :: words) text

/-- The fault that a command reports, the first one if its arguments have several. -/
inductive Failed : List String → CommandError → Prop
  | table (h : name ∉ DumpTarget.names) (rest : List String) :
    Failed ("dump" :: name :: rest) (.unknownTable name)
  | production (h : ∀ p : Production, p.name ≠ name) (options : List String) :
    Failed ("show" :: name :: options) (.unknownProduction name)
  | option (p : Production) (hbefore : ∀ a ∈ before, a ∈ spellings) (h : argument ∉ spellings)
    (after : List String) :
    Failed ("show" :: p.name :: (before ++ argument :: after)) (.unknownOption argument)
  | literal (hne : words ≠ []) (h : (check (" ".intercalate words)).run.value = .error e) :
    Failed ("check" :: words) e

/-- What is printed if there is no answer: the usage for an unknown command, else nothing. -/
inductive Unanswered : List String → String → Prop
  | command (h : command ∉ commands) (rest : List String) : Unanswered (command :: rest) usage
  | operand (h : command ∈ operandCommands) : Unanswered [command] ""
  | failed (h : Failed arguments e) : Unanswered arguments ""

/-- The arguments have a fault. -/
inductive Refused : List String → Prop
  | command (h : command ∉ commands) (rest : List String) : Refused (command :: rest)
  | operand (h : command ∈ operandCommands) : Refused [command]
  | table (h : name ∉ DumpTarget.names) (rest : List String) : Refused ("dump" :: name :: rest)
  | production (h : ∀ p : Production, p.name ≠ name) (options : List String) :
    Refused ("show" :: name :: options)
  | option (name : String) (h : argument ∈ options) (hunknown : argument ∉ spellings) :
    Refused ("show" :: name :: options)
  | literal (hne : words ≠ []) (h : (check (" ".intercalate words)).run.value = .error e) :
    Refused ("check" :: words)

-- ---------------------------------------------------------------------------
-- Outcomes
-- ---------------------------------------------------------------------------

theorem run_dump (name : String) (rest : List String) :
    run ("dump" :: name :: rest) = ofAnswer ((DumpTarget.ofName name).map dump) := rfl

theorem run_show (name : String) (options : List String) :
    run ("show" :: name :: options) = ofAnswer (showAnswer name options).run.value := rfl

theorem run_check (hne : words ≠ []) :
    run ("check" :: words) = ofAnswer (check (" ".intercalate words)).run.value := by
  obtain ⟨word, rest, rfl⟩ := List.exists_cons_of_ne_nil hne
  rfl

theorem run_of_answered (h : Answered arguments text) : run arguments = ⟨0, text, ""⟩ := by
  cases h with
  | usage => rfl
  | help h rest =>
    simp only [List.mem_cons, List.not_mem_nil, or_false] at h
    rcases h with rfl | rfl | rfl <;> rfl
  | productions => rfl
  | dumped h rest =>
    rw [run_dump, DumpTarget.ofName_of_named h]
    rfl
  | shown p h =>
    rw [run_show, value_showAnswer, readProduction_name, h]
    rfl
  | checked hne h =>
    rw [run_check hne, h]
    rfl

theorem run_of_failed (h : Failed arguments e) :
    run arguments = ⟨1, "", "error: " ++ e.message ++ "\n"⟩ := by
  cases h with
  | table h rest =>
    rw [run_dump, DumpTarget.ofName_of_unknown h]
    rfl
  | production h options =>
    rw [run_show, value_showAnswer, readProduction_of_unknown h]
    rfl
  | option p hbefore h after =>
    rw [run_show, value_showAnswer, readProduction_name, value_dialectFlags,
      readOptions_append hbefore h]
    rfl
  | literal hne h =>
    rw [run_check hne, h]
    rfl

theorem run_of_unanswered (h : Unanswered arguments output) :
    (run arguments).status = 1 ∧ (run arguments).output = output := by
  cases h with
  | command h rest =>
    simp only [commands, List.mem_cons, List.not_mem_nil, or_false, not_or] at h
    unfold run
    split <;> simp_all
  | operand h =>
    simp only [operandCommands, List.mem_cons, List.not_mem_nil, or_false] at h
    rcases h with rfl | rfl | rfl <;> exact ⟨rfl, rfl⟩
  | failed h =>
    rw [run_of_failed h]
    exact ⟨rfl, rfl⟩

-- ---------------------------------------------------------------------------
-- All arguments
-- ---------------------------------------------------------------------------

/-- Of an unknown rule and an unknown option the rule is the fault that is reported. -/
theorem exists_failed_of_unknown (name : String) (h : argument ∈ options)
    (hunknown : argument ∉ spellings) : ∃ e, Failed ("show" :: name :: options) e := by
  by_cases hname : ∃ p : Production, p.name = name
  · obtain ⟨p, rfl⟩ := hname
    obtain ⟨before, first, after, rfl, hbefore, hfirst⟩ := exists_first_unknown h hunknown
    exact ⟨_, .option p hbefore hfirst after⟩
  · push Not at hname
    exact ⟨_, .production hname options⟩

theorem dump_cases (name : String) (rest : List String) :
    (∃ text, Answered ("dump" :: name :: rest) text) ∨ ∃ e, Failed ("dump" :: name :: rest) e := by
  by_cases hname : name ∈ DumpTarget.names
  · obtain ⟨target, htarget⟩ := DumpTarget.exists_named hname
    exact .inl ⟨_, .dumped htarget rest⟩
  · exact .inr ⟨_, .table hname rest⟩

theorem show_cases (name : String) (options : List String) :
    (∃ text, Answered ("show" :: name :: options) text) ∨
      ∃ e, Failed ("show" :: name :: options) e := by
  by_cases hoptions : ∀ a ∈ options, a ∈ spellings
  · by_cases hname : ∃ p : Production, p.name = name
    · obtain ⟨p, rfl⟩ := hname
      exact .inl ⟨_, .shown p (by rw [value_dialectFlags, readOptions_eq_filterMap hoptions]; rfl)⟩
    · push Not at hname
      exact .inr ⟨_, .production hname options⟩
  · push Not at hoptions
    obtain ⟨argument, hmem, hunknown⟩ := hoptions
    exact .inr (exists_failed_of_unknown name hmem hunknown)

theorem check_cases (hne : words ≠ []) :
    (∃ text, Answered ("check" :: words) text) ∨ ∃ e, Failed ("check" :: words) e := by
  cases h : (check (" ".intercalate words)).run.value with
  | ok text => exact .inl ⟨text, .checked hne h⟩
  | error e => exact .inr ⟨e, .literal hne h⟩

theorem answered_or_unanswered (arguments : List String) :
    (∃ text, Answered arguments text) ∨ ∃ output, Unanswered arguments output := by
  have hfailed {arguments} : (∃ e, Failed arguments e) → ∃ output, Unanswered arguments output :=
    fun ⟨_, he⟩ => ⟨_, .failed he⟩
  have hoperand {command} (h : command ∈ operandCommands) :
      ∃ output, Unanswered [command] output := ⟨_, .operand h⟩
  cases arguments with
  | nil => exact .inl ⟨_, .usage⟩
  | cons command rest =>
    by_cases h : command ∈ commands
    · simp only [commands, List.mem_cons, List.not_mem_nil, or_false] at h
      rcases h with rfl | rfl | rfl | rfl | hhelp
      · cases rest with
        | nil => exact .inr (hoperand (by decide))
        | cons name rest => exact (dump_cases name rest).imp_right hfailed
      · cases rest with
        | nil => exact .inr (hoperand (by decide))
        | cons name options => exact (show_cases name options).imp_right hfailed
      · cases rest with
        | nil => exact .inr (hoperand (by decide))
        | cons word words => exact (check_cases (List.cons_ne_nil word words)).imp_right hfailed
      · exact .inl ⟨_, .productions rest⟩
      · exact .inl ⟨_, .help (by simpa using hhelp) rest⟩
    · exact .inr ⟨_, .command h rest⟩

theorem Unanswered.refused (h : Unanswered arguments output) : Refused arguments := by
  cases h with
  | command h rest => exact .command h rest
  | operand h => exact .operand h
  | failed h =>
    cases h with
    | table h rest => exact .table h rest
    | production h options => exact .production h options
    | option p hbefore h after => exact .option p.name (by simp) h
    | literal hne h => exact .literal hne h

theorem Refused.unanswered (h : Refused arguments) : ∃ output, Unanswered arguments output := by
  cases h with
  | command h rest => exact ⟨_, .command h rest⟩
  | operand h => exact ⟨_, .operand h⟩
  | table h rest => exact ⟨_, .failed (.table h rest)⟩
  | production h options => exact ⟨_, .failed (.production h options)⟩
  | option name h hunknown =>
    obtain ⟨e, he⟩ := exists_failed_of_unknown name h hunknown
    exact ⟨_, .failed he⟩
  | literal hne h => exact ⟨_, .failed (.literal hne h)⟩

theorem run_all_or_nothing (arguments : List String) :
    ((run arguments).status = 0 ∨ (run arguments).status = 1) ∧
    ((run arguments).status = 1 ↔ Refused arguments) ∧
    ((run arguments).status = 0 →
      (run arguments).errors = "" ∧ Answered arguments (run arguments).output) ∧
    ((run arguments).status = 1 → Unanswered arguments (run arguments).output) ∧
    (∀ text, Answered arguments text → run arguments = ⟨0, text, ""⟩) ∧
    ∀ e, Failed arguments e → run arguments = ⟨1, "", "error: " ++ e.message ++ "\n"⟩ := by
  have hrefused (h : Refused arguments) : (run arguments).status = 1 := by
    obtain ⟨output, houtput⟩ := h.unanswered
    exact (run_of_unanswered houtput).1
  rcases answered_or_unanswered arguments with ⟨text, htext⟩ | ⟨output, houtput⟩
  · have hrun : run arguments = ⟨0, text, ""⟩ := run_of_answered htext
    have hzero : (run arguments).status = 0 := congrArg Outcome.status hrun
    have hne : (run arguments).status ≠ 1 := hzero ▸ by decide
    refine ⟨.inl hzero, ⟨fun h => absurd h hne, hrefused⟩, fun _ => ?_, fun h => absurd h hne,
      fun _ => run_of_answered, fun _ => run_of_failed⟩
    rw [hrun]
    exact ⟨rfl, htext⟩
  · obtain ⟨hstatus, hprinted⟩ := run_of_unanswered houtput
    refine ⟨.inr hstatus, iff_of_true hstatus houtput.refused, fun h => ?_, fun _ => ?_,
      fun _ => run_of_answered, fun _ => run_of_failed⟩
    · cases hstatus.symm.trans h
    · rw [hprinted]
      exact houtput

/-- What follows the name of a table is ignored. The options of an unknown rule are not looked at,
nor those behind an unknown one. -/
theorem run_all_or_nothing_of_arguments :
    Answered ["dump", "follow", "first"] (dump (.grammar .follow)) ∧
    run ["dump", "follow", "first"] = ⟨0, dump (.grammar .follow), ""⟩ ∧
    Failed ["show", "FieldList", "--records"] (.unknownProduction "FieldList") ∧
    run ["show", "FieldList", "--records"] = ⟨1, "",
      "error: unknown production `FieldList` (run `m2c productions` for the list)\n"⟩ ∧
    Failed ["show", "fieldList", "--const-parameters", "--records", "-x"]
      (.unknownOption "--records") ∧
    run ["show", "fieldList", "--const-parameters", "--records", "-x"] =
      ⟨1, "", "error: unknown option `--records`\n"⟩ := by
  have hdumped : Answered ["dump", "follow", "first"] (dump (.grammar .follow)) :=
    .dumped (by decide) ["first"]
  have hproduction : Failed ["show", "FieldList", "--records"]
      (.unknownProduction "FieldList") := by
    refine .production (fun p hp => ?_) _
    have hsome := Production.ofName?_eq_some_iff.mpr hp
    rw [show Production.ofName? "FieldList" = none by decide +kernel] at hsome
    cases hsome
  have hoption : Failed ["show", "fieldList", "--const-parameters", "--records", "-x"]
      (.unknownOption "--records") := by
    have hbefore : ∀ a ∈ ["--const-parameters"], a ∈ spellings := by decide
    exact .option .fieldList hbefore (by decide) ["-x"]
  exact ⟨hdumped, (run_all_or_nothing _).2.2.2.2.1 _ hdumped,
    hproduction, (run_all_or_nothing _).2.2.2.2.2 _ hproduction, hoption,
    (run_all_or_nothing _).2.2.2.2.2 _ hoption⟩

end CommandLine

end Lookahead
