import Lookahead.Grammar.First
import Lookahead.Grammar.Follow
import Lookahead.Grammar.Table
import Lookahead.TokenSet.Basic

/-!
# The rows of the tables

A table as one list of rows, canonical rows first, and the set that a rule has
in a dialect. `getElem?_rows` ties the two together: the set is the row at the
rule's index.
-/

namespace Lookahead.Table

def canonical : Table → Production → TokenSet
  | .first, p => .ofTokens (Grammar.First.canonical p)
  | .follow, p => .ofTokens (Grammar.Follow.canonical p)

def alternate : Table → Production → TokenSet
  | .first, p => .ofTokens (Grammar.First.alternate p)
  | .follow, p => .ofTokens (Grammar.Follow.alternate p)

/-- The rules that have an alternate row, in the order of those rows. -/
def alternated : List Production := Production.all.filter Production.isOptionDependent

def rows (table : Table) : List TokenSet :=
  Production.all.map table.canonical ++ alternated.map table.alternate

def select (table : Table) (p : Production) (d : Dialect) : TokenSet :=
  if table.usesAlternate p d.variantRecords then table.alternate p else table.canonical p

theorem length_alternated : alternated.length = Production.alternateOffset := by decide

theorem length_rows (table : Table) : table.rows.length = rowCount := by
  simp only [rows, List.length_append, List.length_map, length_alternated, Production.length_all]
  rfl

theorem isOptionDependent_of_usesAlternate {table : Table} {p : Production} {v : Bool}
    (h : table.usesAlternate p v = true) : p.isOptionDependent = true := by
  cases hd : p.dependency <;> simp_all [usesAlternate, Production.isOptionDependent]

theorem alternated_getElem? (p : Production) (h : p.isOptionDependent = true) :
    alternated[p.ordinal + Production.alternateOffset - Production.count]? = some p ∧
      Production.count ≤ p.ordinal + Production.alternateOffset := by
  revert h
  cases p <;> decide

theorem getElem?_rows (table : Table) (p : Production) (d : Dialect) :
    table.rows[table.rowIndex p d]? = some (table.select p d) := by
  unfold rows rowIndex select
  split
  next h =>
    obtain ⟨found, past⟩ := alternated_getElem? p (isOptionDependent_of_usesAlternate h)
    rw [List.getElem?_append_right (by simpa [Production.length_all] using past), List.getElem?_map]
    simp only [List.length_map, Production.length_all, found, Option.map_some]
  next =>
    rw [List.getElem?_append_left (by simpa [Production.length_all] using p.ordinal_lt_count),
      List.getElem?_map, Production.all_getElem?_ordinal, Option.map_some]

end Lookahead.Table
