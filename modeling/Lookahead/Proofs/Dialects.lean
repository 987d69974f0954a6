import Lookahead.Command.Show
import Mathlib.Data.List.Forall2

/-!
# What is seen of a dialect

Two bits of the byte of switches are defined. The others are kept, flipped and masked with them, but
no view depends on them, after any edits. The tables depend on less, on variant records alone, and
so do the answers and the reports of a view of them. `only_switches_observed` says both.
-/

namespace Lookahead

namespace DialectFlags

-- ---------------------------------------------------------------------------
-- Edits
-- ---------------------------------------------------------------------------

/-- The bytes have the same defined bits. -/
def Agree (x y : BitVec 8) : Prop := ∀ i < 2, x.getLsbD i = y.getLsbD i

instance (x y : BitVec 8) : Decidable (Agree x y) :=
  inferInstanceAs (Decidable (∀ i < 2, x.getLsbD i = y.getLsbD i))

/-- The same edit, by bytes that agree. `exactly` is left out, as undefined bits decide whether
it is refused. -/
inductive Edit.Alike : Edit → Edit → Prop
  | truncate (h : Agree x y) : Alike (.truncate x) (.truncate y)
  | retain (h : Agree x y) : Alike (.retain x) (.retain y)
  | insert (h : Agree x y) : Alike (.insert x) (.insert y)
  | remove (h : Agree x y) : Alike (.remove x) (.remove y)
  | toggle (h : Agree x y) : Alike (.toggle x) (.toggle y)
  | intersect (h : Agree x y) : Alike (.intersect x) (.intersect y)
  | complement : Alike .complement .complement

section
variable {f g : DialectFlags}

theorem exists_edit?_of_alike (hbits : Agree f.bits g.bits) (h : Edit.Alike e e') :
    ∃ f' g', f.edit? e = some f' ∧ g.edit? e' = some g' ∧ Agree f'.bits g'.bits := by
  cases h with
  | truncate h => exact ⟨_, _, rfl, rfl, fun i hi => by simp [h i hi]⟩
  | retain h => exact ⟨_, _, rfl, rfl, h⟩
  | insert h => exact ⟨_, _, rfl, rfl, fun i hi => by simp [insert, hbits i hi, h i hi]⟩
  | remove h => exact ⟨_, _, rfl, rfl, fun i hi => by simp [remove, hbits i hi, h i hi]⟩
  | toggle h => exact ⟨_, _, rfl, rfl, fun i hi => by simp [hbits i hi, h i hi]⟩
  | intersect h => exact ⟨_, _, rfl, rfl, fun i hi => by simp [hbits i hi, h i hi]⟩
  | complement => exact ⟨_, _, rfl, rfl, fun i hi => by simp [hbits i hi]⟩

theorem exists_edits_of_alike (hbits : Agree f.bits g.bits) (h : List.Forall₂ Edit.Alike es es') :
    ∃ f' g', es.foldlM edit? f = some f' ∧ es'.foldlM edit? g = some g' ∧
      Agree f'.bits g'.bits := by
  induction h generalizing f g with
  | nil => exact ⟨f, g, rfl, rfl, hbits⟩
  | cons hedit _ ih =>
    obtain ⟨f₁, g₁, hf, hg, hbits₁⟩ := exists_edit?_of_alike hbits hedit
    obtain ⟨f', g', hf', hg', hbits'⟩ := ih hbits₁
    exact ⟨f', g', by simp [List.foldlM_cons, hf, hf'], by simp [List.foldlM_cons, hg, hg'], hbits'⟩

end

-- ---------------------------------------------------------------------------
-- Views
-- ---------------------------------------------------------------------------

theorem contains_constParameters (bits : BitVec 8) :
    (DialectFlags.mk bits).contains constParameters = bits.getLsbD 0 := by
  revert bits
  decide

theorem contains_variantRecords (bits : BitVec 8) :
    (DialectFlags.mk bits).contains variantRecords = bits.getLsbD 1 := by
  revert bits
  decide

section
variable {f g : DialectFlags} (h : Agree f.bits g.bits)
include h

theorem contains_of_agree : f.contains constParameters = g.contains constParameters ∧
    f.contains variantRecords = g.contains variantRecords := by
  rw [contains_constParameters, contains_constParameters, contains_variantRecords,
    contains_variantRecords]
  exact ⟨h 0 (by decide), h 1 (by decide)⟩

theorem dialect_of_agree : f.dialect = g.dialect := by
  obtain ⟨hconst, hvariant⟩ := contains_of_agree h
  rw [dialect, dialect, hconst, hvariant]

theorem enabledNames_of_agree : f.enabledNames = g.enabledNames := by
  obtain ⟨hconst, hvariant⟩ := contains_of_agree h
  simp only [enabledNames, optionNames, List.filter_cons, List.filter_nil, hconst, hvariant]

theorem showProduction_of_agree (p : Production) : showProduction p f = showProduction p g := by
  simp only [showProduction, dialect_of_agree h, enabledNames_of_agree h]

end

end DialectFlags

-- ---------------------------------------------------------------------------
-- Tables
-- ---------------------------------------------------------------------------

namespace Traced

theorem mapM_congr {f g : α → Traced β} {as : List α} (h : ∀ a ∈ as, f a = g a) :
    as.mapM f = as.mapM g := by
  induction as with
  | nil => rfl
  | cons a as ih =>
    rw [List.mapM_cons, List.mapM_cons, h a List.mem_cons_self,
      ih fun b hb => h b (List.mem_cons_of_mem a hb)]

theorem events_mapM (f : α → Traced β) (as : List α) :
    (as.mapM f).events = as.flatMap fun a => (f a).events := by
  induction as with
  | nil => rfl
  | cons a as ih => simp [List.mapM_cons, ih]

end Traced

namespace Table

theorem rowIndex_lt_rowCount (table : Table) (p : Production) (d : Dialect) :
    table.rowIndex p d < rowCount := by
  rw [← length_rows table]
  exact (List.getElem?_eq_some_iff.mp (getElem?_rows table p d)).1

theorem row_of_mem_events (t : Table) (h : e ∈ (t.lookup q d).events) :
    ∃ table p row alternate, e = .lookup table p row alternate ∧ row < rowCount := by
  obtain rfl := List.mem_singleton.mp h
  exact ⟨t, q, _, _, rfl, t.rowIndex_lt_rowCount q d⟩

theorem lookup_congr (table : Table) (p : Production) (h : d.variantRecords = d'.variantRecords) :
    table.lookup p d = table.lookup p d' := by
  simp only [lookup, rowIndex, select, h]

end Table

namespace Grammar

def answers (g : Grammar) (queries : List Query) : Traced (List Answer) := queries.mapM g.answer

/-- What is answered without a view of the tables. -/
def Query.direct (d : Dialect) : Query → Traced Answer
  | .first p => .set <$> Lookahead.first p d
  | .follow p => .set <$> Lookahead.follow p d
  | .resync point => pure (.set point.resync)
  | .count => pure (.number Production.count)
  | .dialect => pure (.dialect d)

theorem answer_eq_direct (h : d.variantRecords = d'.variantRecords) (hq : q ≠ .dialect) :
    (Grammar.mk d).answer q = q.direct d' := by
  cases q with
  | first p => exact congrArg (Answer.set <$> ·) (Table.first.lookup_congr p h)
  | follow p => exact congrArg (Answer.set <$> ·) (Table.follow.lookup_congr p h)
  | resync | count => rfl
  | dialect => exact absurd rfl hq

theorem events_answer (g : Grammar) (q : Query) : ∀ e ∈ (g.answer q).events,
    ∃ table p row alternate, e = .lookup table p row alternate ∧ row < Table.rowCount := by
  cases q with
  | first p => exact fun _ => Table.first.row_of_mem_events
  | follow p => exact fun _ => Table.follow.row_of_mem_events
  | resync | count | dialect => exact fun _ he => absurd he List.not_mem_nil

end Grammar

theorem only_switches_observed :
    (∀ (f g : DialectFlags) (es es' : List DialectFlags.Edit), DialectFlags.Agree f.bits g.bits →
      List.Forall₂ DialectFlags.Edit.Alike es es' →
      ∀ k, ∃ f' g',
        (es.take k).foldlM DialectFlags.edit? f = some f' ∧
        (es'.take k).foldlM DialectFlags.edit? g = some g' ∧
        f'.enabledNames = g'.enabledNames ∧
        f'.dialect.constParameters = g'.dialect.constParameters ∧
        f'.dialect.variantRecords = g'.dialect.variantRecords ∧
        ∀ p, showProduction p f' = showProduction p g') ∧
    ∀ (d d' : Dialect) (queries : List Grammar.Query), d.variantRecords = d'.variantRecords →
      .dialect ∉ queries →
      (Grammar.mk d).answers queries = (Grammar.mk d').answers queries ∧
      (Grammar.mk d).answers queries = queries.mapM (Grammar.Query.direct d') ∧
      ∀ e ∈ ((Grammar.mk d).answers queries).events,
        ∃ table p row alternate, e = .lookup table p row alternate ∧ row < Table.rowCount := by
  constructor
  · intro f g es es' hbits halike k
    obtain ⟨f', g', hf, hg, h⟩ :=
      DialectFlags.exists_edits_of_alike hbits (List.forall₂_take k halike)
    have hdialect := DialectFlags.dialect_of_agree h
    exact ⟨f', g', hf, hg, DialectFlags.enabledNames_of_agree h,
      congrArg Dialect.constParameters hdialect, congrArg Dialect.variantRecords hdialect,
      DialectFlags.showProduction_of_agree h⟩
  · intro d d' queries h hq
    have hdirect {d : Dialect} (h : d.variantRecords = d'.variantRecords) :
        (Grammar.mk d).answers queries = queries.mapM (Grammar.Query.direct d') := by
      refine Traced.mapM_congr fun q hmem => Grammar.answer_eq_direct h ?_
      rintro rfl
      exact hq hmem
    refine ⟨(hdirect h).trans (hdirect rfl).symm, hdirect h, fun e he => ?_⟩
    rw [Grammar.answers, Traced.events_mapM, List.mem_flatMap] at he
    obtain ⟨q, -, he⟩ := he
    exact Grammar.events_answer _ q e he

/-- Undefined bits that are flipped, lost and set again in two ways. -/
theorem only_switches_observed_of_bytes :
    let f : DialectFlags := ⟨0b11110010⟩
    let g : DialectFlags := ⟨0b00000110⟩
    let es : List DialectFlags.Edit := [.toggle 0b10000001, .complement, .insert 0b00000100]
    let es' : List DialectFlags.Edit := [.toggle 0b01000001, .complement, .insert 0b00101000]
    let queries : List Grammar.Query :=
      [.first .fieldList, .resync .fieldListOrEnd, .follow .variant]
    DialectFlags.Agree f.bits g.bits ∧ List.Forall₂ DialectFlags.Edit.Alike es es' ∧
    es.foldlM DialectFlags.edit? f = some ⟨0b00000100⟩ ∧
    es'.foldlM DialectFlags.edit? g = some ⟨0b00101000⟩ ∧
    showProduction .fieldList ⟨0b00000100⟩ = showProduction .fieldList ⟨0b00101000⟩ ∧
    .dialect ∉ queries ∧
    (Grammar.mk ⟨true, false⟩).answers queries = (Grammar.mk ⟨false, false⟩).answers queries := by
  intro f g es es' queries
  have hbits : DialectFlags.Agree f.bits g.bits := by decide
  have halike : List.Forall₂ DialectFlags.Edit.Alike es es' :=
    .cons (.toggle (by decide)) (.cons .complement (.cons (.insert (by decide)) .nil))
  have hf : es.foldlM DialectFlags.edit? f = some ⟨0b00000100⟩ := by decide
  have hg : es'.foldlM DialectFlags.edit? g = some ⟨0b00101000⟩ := by decide
  have hqueries : .dialect ∉ queries := by decide
  obtain ⟨f', g', hf', hg', -, -, -, hshow⟩ := only_switches_observed.1 f g es es' hbits halike 3
  obtain rfl := Option.some.inj (hf.symm.trans hf')
  obtain rfl := Option.some.inj (hg.symm.trans hg')
  exact ⟨hbits, halike, hf, hg, hshow .fieldList, hqueries,
    (only_switches_observed.2 _ _ queries rfl hqueries).1⟩

end Lookahead
