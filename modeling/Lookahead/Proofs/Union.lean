import Lookahead.Proofs.Members
import Lookahead.Proofs.Reachable

/-!
# Unions

The union of a list is made from left to right, but only what is on the list counts: neither the
order, nor repetitions, nor a nesting of unions changes it. `unionOf_exact` says this with what a
union holds, how many elements it counts, and that it is the least set above its parts.
-/

namespace Lookahead.TokenSet

theorem union_assoc (a b c : TokenSet) : (a.union b).union c = a.union (b.union c) := by
  simp [union, ofBits, BitVec.or_assoc]

instance : Std.Associative union := ⟨union_assoc⟩

-- ---------------------------------------------------------------------------
-- Lists of sets
-- ---------------------------------------------------------------------------

theorem unionOf_eq_error_iff {sets : List TokenSet} :
    unionOf sets = .error e ↔ sets = [] ∧ e = .emptyUnion := by
  cases sets <;> simp [unionOf, eq_comm]

theorem exists_unionOf {sets : List TokenSet} (hne : sets ≠ []) : ∃ u, unionOf sets = .ok u := by
  cases sets with
  | nil => exact absurd rfl hne
  | cons s rest => exact ⟨_, rfl⟩

theorem unionOf_append {as bs : List TokenSet} (ha : unionOf as = .ok a) (hb : unionOf bs = .ok b) :
    unionOf (as ++ bs) = .ok (a.union b) := by
  cases as with
  | nil => cases ha
  | cons s as =>
    cases bs with
    | nil => cases hb
    | cons t bs =>
      cases ha
      cases hb
      simp [unionOf, List.foldl_assoc]

theorem hasOrdinal_unionOf {sets : List TokenSet} (hu : unionOf sets = .ok u) (n : Nat) :
    u.hasOrdinal n = true ↔ ∃ s ∈ sets, s.hasOrdinal n = true := by
  cases sets with
  | nil => cases hu
  | cons s rest =>
    cases hu
    induction rest generalizing s with
    | nil => simp
    | cons t rest ih => simp [ih, hasOrdinal_union, or_assoc]

theorem mem_unionOf {sets : List TokenSet} (hu : unionOf sets = .ok u) :
    t ∈ u ↔ ∃ s ∈ sets, t ∈ s :=
  hasOrdinal_unionOf hu t.ordinal

theorem unionOf_congr {sets sets' : List TokenSet} (hs : ∀ s ∈ sets, Consistent s)
    (hmem : ∀ s, s ∈ sets' ↔ s ∈ sets) : unionOf sets' = unionOf sets := by
  by_cases hne : sets = []
  · subst hne
    have hnil : sets' = [] :=
      List.eq_nil_iff_forall_not_mem.mpr fun s h => by simpa using (hmem s).mp h
    rw [hnil]
  · have hne' : sets' ≠ [] := by
      obtain ⟨s, h⟩ := List.exists_mem_of_ne_nil _ hne
      exact List.ne_nil_of_mem ((hmem s).mpr h)
    obtain ⟨u, hu⟩ := exists_unionOf hne
    obtain ⟨u', hu'⟩ := exists_unionOf hne'
    have hcu := consistent_unionOf hs hu
    have hcu' := consistent_unionOf (fun s h => hs s ((hmem s).mp h)) hu'
    rw [hu, hu', hcu'.ext hcu fun t => by simp [mem_unionOf hu, mem_unionOf hu', hmem]]

theorem count_unionOf {sets : List TokenSet} (hs : ∀ s ∈ sets, Consistent s)
    (hu : unionOf sets = .ok u) : u.count = (sets.flatMap toList).dedup.length := by
  have hmembers : u.members = (sets.flatMap toList).toFinset := by
    ext t
    simp [mem_unionOf hu, mem_toList]
  rw [← (consistent_unionOf hs hu).card_members, hmembers, List.card_toFinset]

-- ---------------------------------------------------------------------------
-- Nested unions
-- ---------------------------------------------------------------------------

/-- Sets to be united, by calls nested in any way. No list to unite is empty. -/
inductive Grouping where
  | set (s : TokenSet)
  | union (a b : Grouping)
  | unionOf (first : Grouping) (rest : List Grouping)

namespace Grouping

mutual

/-- The sets from left to right. -/
def sets : Grouping → List TokenSet
  | .set s => [s]
  | .union a b => a.sets ++ b.sets
  | .unionOf first rest => first.sets ++ setsOf rest

def setsOf : List Grouping → List TokenSet
  | [] => []
  | g :: gs => g.sets ++ setsOf gs

end

mutual

/-- The result of the calls. -/
def value : Grouping → Except TokenSetError TokenSet
  | .set s => .ok s
  | .union a b => do
    let u ← a.value
    let v ← b.value
    return u.union v
  | .unionOf first rest => do
    let u ← first.value
    let us ← values rest
    TokenSet.unionOf (u :: us)

def values : List Grouping → Except TokenSetError (List TokenSet)
  | [] => .ok []
  | g :: gs => do
    let u ← g.value
    let us ← values gs
    return u :: us

end

mutual

theorem exists_value (g : Grouping) :
    ∃ u, g.value = .ok u ∧ TokenSet.unionOf g.sets = .ok u := by
  cases g with
  | set s => exact ⟨s, rfl, rfl⟩
  | union a b =>
    obtain ⟨u, hu, hsu⟩ := exists_value a
    obtain ⟨v, hv, hsv⟩ := exists_value b
    exact ⟨u.union v, by rw [value, hu, hv]; rfl, by rw [sets, unionOf_append hsu hsv]⟩
  | unionOf first rest =>
    obtain ⟨u, hu, hsu⟩ := exists_value first
    obtain ⟨us, hus, hunion⟩ := exists_values rest
    obtain ⟨v, hv⟩ := exists_unionOf (List.cons_ne_nil u us)
    exact ⟨v, by rw [value, hu, hus]; exact hv, by rw [sets, hunion hsu, hv]⟩

/-- The sets of the groups may follow others in a list in the place of what the groups give. -/
theorem exists_values (gs : List Grouping) :
    ∃ us, values gs = .ok us ∧ ∀ {as a}, TokenSet.unionOf as = .ok a →
      TokenSet.unionOf (as ++ setsOf gs) = TokenSet.unionOf (a :: us) := by
  cases gs with
  | nil =>
    refine ⟨[], rfl, fun h => ?_⟩
    rw [setsOf, List.append_nil, h]
    rfl
  | cons g gs =>
    obtain ⟨u, hu, hsu⟩ := exists_value g
    obtain ⟨us, hus, hunion⟩ := exists_values gs
    refine ⟨u :: us, by rw [values, hu, hus]; rfl, fun h => ?_⟩
    rw [setsOf, ← List.append_assoc, hunion (unionOf_append h hsu)]
    rfl

end

end Grouping

-- ---------------------------------------------------------------------------
-- The join of the sets
-- ---------------------------------------------------------------------------

theorem Consistent.isSubset_union_iff (ha : Consistent a) (hb : Consistent b) (hc : Consistent c) :
    (a.union b).isSubset c = true ↔ a.isSubset c = true ∧ b.isSubset c = true := by
  rw [(consistent_union ha hb).isSubset_iff hc, ha.isSubset_iff hc, hb.isSubset_iff hc,
    members_union, Finset.union_subset_iff]

theorem card_inter_members (a b : TokenSet) :
    (a.members ∩ b.members).card = (a.toList.filter b.contains).length := by
  have hinter : a.members ∩ b.members = (a.toList.filter b.contains).toFinset := by
    ext t
    simp [mem_toList, contains, hasOrdinal_ordinal]
  rw [hinter, List.toFinset_card_of_nodup ((nodup_toList a).filter _)]

theorem Consistent.count_union_add (ha : Consistent a) (hb : Consistent b) :
    (a.union b).count + (a.toList.filter b.contains).length = a.count + b.count := by
  rw [← (consistent_union ha hb).card_members, ← ha.card_members, ← hb.card_members,
    ← card_inter_members, members_union, Finset.card_union_add_card_inter]

theorem unionOf_exact :
    (∀ sets e, unionOf sets = .error e ↔ sets = [] ∧ e = .emptyUnion) ∧
    (∀ sets, sets ≠ [] → (∀ s ∈ sets, Reachable s) → ∃ u, unionOf sets = .ok u ∧
      (∀ n, u.hasOrdinal n = true ↔ ∃ s ∈ sets, s.hasOrdinal n = true) ∧
      u.count = (sets.flatMap toList).dedup.length ∧
      (∀ sets', (∀ s, s ∈ sets' ↔ s ∈ sets) → unionOf sets' = .ok u) ∧
      (∀ g : Grouping, (∀ s, s ∈ g.sets ↔ s ∈ sets) → g.value = .ok u)) ∧
    (∀ a b c, Reachable a → Reachable b → Reachable c →
      ((a.union b).isSubset c = true ↔ a.isSubset c = true ∧ b.isSubset c = true)) ∧
    ∀ a b, Reachable a → Reachable b →
      (a.union b).count + (a.toList.filter b.contains).length = a.count + b.count := by
  refine ⟨fun _ _ => unionOf_eq_error_iff, ?_, ?_, ?_⟩
  · intro sets hne hr
    have hs : ∀ s ∈ sets, Consistent s := fun s h => (hr s h).consistent
    obtain ⟨u, hu⟩ := exists_unionOf hne
    refine ⟨u, hu, hasOrdinal_unionOf hu, count_unionOf hs hu, ?_, ?_⟩
    · intro sets' hmem
      rw [unionOf_congr hs hmem, hu]
    · intro g hmem
      obtain ⟨v, hv, hsets⟩ := g.exists_value
      rw [hv, ← hsets, unionOf_congr hs hmem, hu]
  · exact fun _ _ _ ha hb hc => ha.consistent.isSubset_union_iff hb.consistent hc.consistent
  · exact fun _ _ ha hb => ha.consistent.count_union_add hb.consistent

theorem unionOf_exact_of_tokens :
    ∃ u, unionOf [ofTokens [.BEGIN, .END], ofTokens [.END, .VAR, .endOfFile]] = .ok u ∧
      u.count = 4 ∧
      unionOf [ofTokens [.END, .VAR, .endOfFile], ofTokens [.BEGIN, .END],
        ofTokens [.END, .VAR, .endOfFile]] = .ok u ∧
      (Grouping.unionOf (.set (ofTokens [.END, .VAR, .endOfFile]))
        [.union (.set (ofTokens [.BEGIN, .END])) (.set (ofTokens [.BEGIN, .END]))]).value =
          .ok u := by
  have hr : ∀ s ∈ [ofTokens [.BEGIN, .END], ofTokens [.END, .VAR, .endOfFile]], Reachable s := by
    simpa using ⟨.ofTokens _, .ofTokens _⟩
  obtain ⟨u, hu, -, hcount, hlist, hgroups⟩ := unionOf_exact.2.1 _ (List.cons_ne_nil _ _) hr
  refine ⟨u, hu, by rw [hcount]; decide +kernel, hlist _ fun s => ?_, hgroups _ fun s => ?_⟩
  · simp only [List.mem_cons, List.not_mem_nil, or_false]
    tauto
  · simp [Grouping.sets, Grouping.setsOf, or_comm]

end Lookahead.TokenSet
