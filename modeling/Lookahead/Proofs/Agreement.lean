import Lookahead.Grammar.Lookup
import Lookahead.Proofs.Recovery

/-!
# Recovery sets and the grammar tables

The recovery sets of statements, imports and blocks are unions of the sets that the tables have for
them, in every dialect, so that a parser recovers where the tables say it can go on:
`resync_agrees`. A dialect with variant records has the larger sets in both tables, although one
table keeps them in its alternate rows and the other in its canonical rows
(`Table.lookup_of_variantRecords`). So it never skips further: `recovers_sooner`.
-/

namespace Lookahead

-- ---------------------------------------------------------------------------
-- Recovery sets as unions
-- ---------------------------------------------------------------------------

theorem Table.select_of_independent (table : Table) (h : p.dependency = .independent)
    (d : Dialect) : table.select p d = table.canonical p := by
  simp [select, usesAlternate, h]

theorem value_first_of_independent (h : p.dependency = .independent) (d : Dialect) :
    (first p d).value = Table.first.canonical p :=
  Table.first.select_of_independent h d

theorem value_follow_of_independent (h : p.dependency = .independent) (d : Dialect) :
    (follow p d).value = Table.follow.canonical p :=
  Table.follow.select_of_independent h d

namespace ResyncPoint

theorem resync_statementOrTerminator (d : Dialect) : statementOrTerminator.resync =
    (first .statement d).value.union (follow .statement d).value := by
  rw [value_first_of_independent rfl, value_follow_of_independent rfl]
  decide

theorem resync_importOrBlock (d : Dialect) : importOrBlock.resync =
    (first .«import» d).value.union (first .block d).value := by
  rw [value_first_of_independent rfl, value_first_of_independent rfl]
  decide

theorem resync_importOrDefinitionOrEnd (d : Dialect) : importOrDefinitionOrEnd.resync =
    definitionOrEnd.resync.union (first .«import» d).value := by
  rw [value_first_of_independent rfl]
  decide

theorem resync_declarationOrBody (d : Dialect) :
    declarationOrBody.resync = (first .block d).value := by
  rw [value_first_of_independent rfl]
  decide

theorem endOfFile_notMem_resync (point : ResyncPoint) : .endOfFile ∉ point.resync := by
  cases point <;> decide

end ResyncPoint

/-- From every place of every stream, and in every dialect. -/
theorem Cursor.resync_agrees (c : Cursor) (d : Dialect) :
    (c.recovered (ResyncPoint.resync .statementOrTerminator)).position =
      min (c.recovered (first .statement d).value).position
        (c.recovered (follow .statement d).value).position ∧
    (c.recovered (ResyncPoint.resync .importOrBlock)).position =
      min (c.recovered (first .«import» d).value).position
        (c.recovered (first .block d).value).position ∧
    (c.recovered (ResyncPoint.resync .importOrDefinitionOrEnd)).position =
      min (c.recovered (ResyncPoint.resync .definitionOrEnd)).position
        (c.recovered (first .«import» d).value).position ∧
    (c.recovered (ResyncPoint.resync .declarationOrBody)).position =
      (c.recovered (first .block d).value).position ∧
    ∀ point : ResyncPoint,
      c.recovers point.resync = (c.recovered point.resync).isAt point.resync := by
  refine ⟨?_, ?_, ?_, ?_, fun point => recovers_eq_isAt point.endOfFile_notMem_resync c⟩
  · rw [ResyncPoint.resync_statementOrTerminator d, position_recovered_union]
  · rw [ResyncPoint.resync_importOrBlock d, position_recovered_union]
  · rw [ResyncPoint.resync_importOrDefinitionOrEnd d, position_recovered_union]
  · rw [ResyncPoint.resync_declarationOrBody d]

-- ---------------------------------------------------------------------------
-- Variant records
-- ---------------------------------------------------------------------------

theorem Grammar.First.canonical_subset_alternate (p : Production) :
    canonical p ⊆ alternate p := by
  cases p <;> decide

theorem Grammar.Follow.alternate_subset_canonical (p : Production) :
    alternate p ⊆ canonical p := by
  cases p <;> decide

namespace Table

section
variable {table : Table} {p : Production} {d : Dialect}

theorem lookup_of_usesAlternate (h : table.usesAlternate p d.variantRecords = true) :
    table.lookup p d = ⟨table.alternate p,
      [.lookup table p (p.ordinal + Production.alternateOffset) true]⟩ := by
  have hmoved : (p.ordinal + Production.alternateOffset != p.ordinal) = true := by
    simp [Production.alternateOffset]
  simp only [lookup, rowIndex, select, h, if_true, hmoved]
  rfl

theorem lookup_of_not_usesAlternate (h : table.usesAlternate p d.variantRecords = false) :
    table.lookup p d = ⟨table.canonical p, [.lookup table p p.ordinal false]⟩ := by
  simp only [lookup, rowIndex, select, h, Bool.false_eq_true, if_false, bne_self_eq_false]
  rfl

/-- Only a rule on variant records is looked up by the dialect. -/
theorem lookup_eq_of_dependency_ne (h : p.dependency ≠ .variantRecords) (d d' : Dialect) :
    table.lookup p d = table.lookup p d' := by
  cases hp : p.dependency with
  | independent | constParameters => simp [lookup, rowIndex, select, usesAlternate, hp]
  | variantRecords => exact absurd hp h

end

end Table

section
variable {on off : Dialect} (hon : on.variantRecords = true) (hoff : off.variantRecords = false)
include hon hoff

/-- The larger set is the alternate row of one table and the canonical row of the other. -/
theorem Table.lookup_of_variantRecords (hp : p.dependency = .variantRecords) :
    first.lookup p on = ⟨first.alternate p,
      [.lookup .first p (p.ordinal + Production.alternateOffset) true]⟩ ∧
    first.lookup p off = ⟨first.canonical p, [.lookup .first p p.ordinal false]⟩ ∧
    follow.lookup p on = ⟨follow.canonical p, [.lookup .follow p p.ordinal false]⟩ ∧
    follow.lookup p off = ⟨follow.alternate p,
      [.lookup .follow p (p.ordinal + Production.alternateOffset) true]⟩ := by
  refine ⟨lookup_of_usesAlternate ?_, lookup_of_not_usesAlternate ?_,
    lookup_of_not_usesAlternate ?_, lookup_of_usesAlternate ?_⟩
  all_goals simp [usesAlternate, hp, hon, hoff]

theorem Table.mem_lookup_of_variantRecords (table : Table) (p : Production) (t : Token)
    (ht : t ∈ (table.lookup p off).value) : t ∈ (table.lookup p on).value := by
  by_cases hp : p.dependency = .variantRecords
  · obtain ⟨hfirst, hfirst', hfollow, hfollow'⟩ := lookup_of_variantRecords hon hoff hp
    cases table with
    | first =>
      rw [hfirst'] at ht
      rw [hfirst]
      exact TokenSet.ofTokens_mono (Grammar.First.canonical_subset_alternate p) t ht
    | follow =>
      rw [hfollow'] at ht
      rw [hfollow]
      exact TokenSet.ofTokens_mono (Grammar.Follow.alternate_subset_canonical p) t ht
  · rwa [table.lookup_eq_of_dependency_ne hp on off]

theorem Cursor.recovers_sooner (c : Cursor) (p : Production) :
    ((c.recovered (first p on).value).position ≤ (c.recovered (first p off).value).position ∧
      (c.recovers (first p off).value = true → c.recovers (first p on).value = true)) ∧
    ((c.recovered (follow p on).value).position ≤ (c.recovered (follow p off).value).position ∧
      (c.recovers (follow p off).value = true → c.recovers (follow p on).value = true)) ∧
    (p.dependency = .variantRecords →
      first p on = ⟨Table.first.alternate p,
        [.lookup .first p (p.ordinal + Production.alternateOffset) true]⟩ ∧
      first p off = ⟨Table.first.canonical p, [.lookup .first p p.ordinal false]⟩ ∧
      follow p on = ⟨Table.follow.canonical p, [.lookup .follow p p.ordinal false]⟩ ∧
      follow p off = ⟨Table.follow.alternate p,
        [.lookup .follow p (p.ordinal + Production.alternateOffset) true]⟩) ∧
    (p.dependency ≠ .variantRecords → first p on = first p off ∧ follow p on = follow p off) := by
  have hfirst := Table.first.mem_lookup_of_variantRecords hon hoff p
  have hfollow := Table.follow.mem_lookup_of_variantRecords hon hoff p
  refine ⟨⟨position_recovered_anti hfirst c, recovers_mono hfirst c⟩,
    ⟨position_recovered_anti hfollow c, recovers_mono hfollow c⟩,
    Table.lookup_of_variantRecords hon hoff, fun hp => ?_⟩
  exact ⟨Table.lookup_eq_of_dependency_ne hp on off, Table.lookup_eq_of_dependency_ne hp on off⟩

end

/-- A field list may begin with `CASE`, and end at a bar, with variant records only. Parameters are
the same either way. -/
theorem Cursor.recovers_sooner_of_tokens :
    let c := Cursor.ofTokens [.plus, .CASE, .identifier, .bar, .semicolon]
    let on : Dialect := ⟨false, true⟩
    let off : Dialect := ⟨true, false⟩
    on.variantRecords = true ∧ off.variantRecords = false ∧
    (c.recovered (first .fieldList off).value).position = 2 ∧
    (c.recovered (first .fieldList on).value).position ≤ 2 ∧
    c.recovers (first .fieldList on).value = true ∧
    (c.recovered (follow .fieldList off).value).position = 4 ∧
    (c.recovered (follow .fieldList on).value).position ≤ 4 ∧
    c.recovers (follow .fieldList on).value = true ∧
    Production.dependency .fieldList = .variantRecords ∧
    first .fieldList on = ⟨Table.first.alternate .fieldList, [.lookup .first .fieldList 81 true]⟩ ∧
    Production.dependency .formalParams ≠ .variantRecords ∧
    follow .formalParams on = follow .formalParams off := by
  intro c on off
  have hon : on.variantRecords = true := rfl
  have hoff : off.variantRecords = false := rfl
  obtain ⟨⟨hfirst, hfound⟩, ⟨hfollow, hended⟩, hrows, -⟩ := c.recovers_sooner hon hoff .fieldList
  obtain ⟨-, -, -, hsame⟩ := c.recovers_sooner hon hoff .formalParams
  have htwo : (c.recovered (first .fieldList off).value).position = 2 := by decide +kernel
  have hfour : (c.recovered (follow .fieldList off).value).position = 4 := by decide +kernel
  have hvariant : Production.dependency .fieldList = .variantRecords := rfl
  have hother : Production.dependency .formalParams ≠ .variantRecords := by decide
  exact ⟨hon, hoff, htwo, htwo ▸ hfirst, hfound (by decide +kernel), hfour, hfour ▸ hfollow,
    hended (by decide +kernel), hvariant, (hrows hvariant).1, hother, (hsame hother).2⟩

end Lookahead
