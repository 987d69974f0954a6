import Lookahead.TokenSet.Literal
import Mathlib.Data.List.DropRight

/-!
# Words laid out in a text

Words stand between single commas, with blanks around each. After the last one
there may be commas that touch one another, and blanks after those.

`layout_splitWords` and `splitWords_of_layout` say that splitting finds the
words of such a text and no others, as long as none of them is blank or holds a
comma.
-/

namespace Lookahead

namespace Text

-- ---------------------------------------------------------------------------
-- Dropping from the end
-- ---------------------------------------------------------------------------

section
variable {p : Char → Bool} {xs ys : List Char}

theorem dropEndWhile_eq_rdropWhile (p : Char → Bool) (cs : List Char) :
    dropEndWhile p cs = cs.rdropWhile p := rfl

theorem dropEndWhile_append_of_forall (h : ∀ c ∈ ys, p c = true) :
    dropEndWhile p (xs ++ ys) = dropEndWhile p xs := by
  rw [dropEndWhile, List.reverse_append, List.dropWhile_append_of_pos (by simpa using h)]
  rfl

theorem dropEndWhile_append_of_exists (h : ∃ c ∈ ys, p c = false) :
    dropEndWhile p (xs ++ ys) = xs ++ dropEndWhile p ys := by
  obtain ⟨c, hc, hp⟩ := h
  have hne : (ys.reverse.dropWhile p).isEmpty = false := by
    rw [List.isEmpty_eq_false_iff, ne_eq, List.dropWhile_eq_nil_iff]
    intro hall
    rw [hall c (by simpa using hc)] at hp
    cases hp
  simp [dropEndWhile, List.dropWhile_append, hne]

theorem dropEndWhile_eq_self (h : ∀ c ∈ xs, p c = false) : dropEndWhile p xs = xs := by
  rw [dropEndWhile_eq_rdropWhile, List.rdropWhile_eq_self_iff]
  intro hne
  simp [h _ (List.getLast_mem hne)]

theorem dropEndWhile_append_left (h : ∀ c ∈ xs, p c = false) :
    dropEndWhile p (xs ++ ys) = xs ++ dropEndWhile p ys := by
  by_cases hys : ∃ c ∈ ys, p c = false
  · exact dropEndWhile_append_of_exists hys
  · have hall : ∀ c ∈ ys, p c = true := by simpa using hys
    have hnil : dropEndWhile p ys = [] := List.rdropWhile_eq_nil_iff.mpr hall
    rw [dropEndWhile_append_of_forall hall, dropEndWhile_eq_self h, hnil, List.append_nil]

theorem exists_dropEndWhile_append (p : Char → Bool) (cs : List Char) :
    ∃ r, (∀ c ∈ r, p c = true) ∧ cs = dropEndWhile p cs ++ r :=
  ⟨cs.rtakeWhile p, fun _ => List.mem_rtakeWhile_imp, (List.rdropWhile_append_rtakeWhile ..).symm⟩

theorem exists_commas_append (cs : List Char) :
    ∃ k, cs = dropEndWhile (· == ',') cs ++ List.replicate k ',' := by
  obtain ⟨r, hr, hcs⟩ := exists_dropEndWhile_append (· == ',') cs
  have hcommas : r = List.replicate r.length ',' :=
    List.eq_replicate_of_mem fun c hc => by simpa using hr c hc
  exact ⟨r.length, by rwa [← hcommas]⟩

theorem dropEndWhile_subset (p : Char → Bool) (cs : List Char) : dropEndWhile p cs ⊆ cs :=
  (List.rdropWhile_prefix p cs).subset

theorem mem_dropEndWhile (hc : c ∈ xs) (hp : p c = false) : c ∈ dropEndWhile p xs := by
  obtain ⟨r, hr, hxs⟩ := exists_dropEndWhile_append p xs
  rw [hxs, List.mem_append] at hc
  rcases hc with hc | hc
  · exact hc
  · rw [hr c hc] at hp
    cases hp

end

-- ---------------------------------------------------------------------------
-- Blanks
-- ---------------------------------------------------------------------------

@[simp] theorem isBlank_space : isBlank ' ' = true := by decide

@[simp] theorem isBlank_comma : isBlank ',' = false := by decide

def Blank (cs : List Char) : Prop := ∀ c ∈ cs, isBlank c = true

theorem not_blank_iff {cs : List Char} : ¬ Blank cs ↔ ∃ c ∈ cs, isBlank c = false := by
  simp [Blank]

theorem blank_nil : Blank [] := by simp [Blank]

theorem Blank.append (hl : Blank l) (hr : Blank r) : Blank (l ++ r) := by
  intro c hc
  rcases List.mem_append.mp hc with hc | hc
  · exact hl c hc
  · exact hr c hc

theorem Blank.comma_not_mem (h : Blank cs) : ',' ∉ cs := fun hc => by simpa using h _ hc

theorem beq_comma_eq_false {cs : List Char} (h : ',' ∉ cs) : ∀ c ∈ cs, (c == ',') = false := by
  intro c hc
  rw [beq_eq_false_iff_ne]
  rintro rfl
  exact h hc

theorem trim_append (hl : Blank l) (hr : Blank r) (cs : List Char) :
    trim (l ++ cs ++ r) = trim cs := by
  rw [trim, List.append_assoc, List.dropWhile_append_of_pos hl]
  induction cs with
  | nil => simp [trim, List.dropWhile_eq_nil_iff.mpr hr]
  | cons c cs ih =>
    cases hc : isBlank c with
    | true => simpa [trim, hc] using ih
    | false =>
      simp only [trim, List.cons_append, List.dropWhile_cons, hc, Bool.false_eq_true, if_false]
      rw [← List.cons_append, dropEndWhile_append_of_forall hr]

theorem trim_eq_self (h : ∀ c ∈ cs, isBlank c = false) : trim cs = cs := by
  have hstart : cs.dropWhile isBlank = cs := by
    cases cs with
    | nil => rfl
    | cons c cs => simp [h c List.mem_cons_self]
  rw [trim, hstart, dropEndWhile_eq_self h]

theorem trim_dropEndWhile (cs : List Char) : trim (dropEndWhile isBlank cs) = trim cs := by
  obtain ⟨r, hr, hcs⟩ := exists_dropEndWhile_append isBlank cs
  have h := trim_append blank_nil hr (dropEndWhile isBlank cs)
  rw [List.nil_append, ← hcs] at h
  exact h.symm

/-- A word with blanks on either side. -/
def Padded (w p : List Char) : Prop := ∃ l r, Blank l ∧ Blank r ∧ p = l ++ w ++ r

theorem padded_trim (cs : List Char) : Padded (trim cs) cs := by
  obtain ⟨r, hr, hcs⟩ := exists_dropEndWhile_append isBlank (cs.dropWhile isBlank)
  refine ⟨cs.takeWhile isBlank, r, fun _ => List.mem_takeWhile_imp, hr, ?_⟩
  rw [List.append_assoc, trim, ← hcs, List.takeWhile_append_dropWhile]

theorem Padded.trim_eq (h : Padded w p) : trim p = trim w := by
  obtain ⟨l, r, hl, hr, rfl⟩ := h
  exact trim_append hl hr w

theorem Padded.comma_not_mem (h : Padded w p) (hw : ',' ∉ w) : ',' ∉ p := by
  obtain ⟨l, r, hl, hr, rfl⟩ := h
  simp [hl.comma_not_mem, hr.comma_not_mem, hw]

theorem Padded.subset (h : Padded w p) : w ⊆ p := by
  obtain ⟨l, r, -, -, rfl⟩ := h
  intro c hc
  simp [hc]

end Text

namespace TokenSet

open Text

-- ---------------------------------------------------------------------------
-- Layouts
-- ---------------------------------------------------------------------------

inductive Layout : List (List Char) → List Char → Prop
  | none {p b : List Char} (k : Nat) :
      Blank p → Blank b → Layout [] (p ++ List.replicate k ',' ++ b)
  | last {w p b : List Char} (k : Nat) :
      Padded w p → Blank b → Layout [w] (p ++ List.replicate k ',' ++ b)
  | cons {w w' p cs : List Char} {ws : List (List Char)} :
      Padded w p → Layout (w' :: ws) cs → Layout (w :: w' :: ws) (p ++ ',' :: cs)

theorem map_trim_splitOn_append (hl : Blank l) (cs : List Char) :
    ((l ++ cs).splitOn ',').map trim = (cs.splitOn ',').map trim := by
  induction l with
  | nil => rfl
  | cons c l ih =>
    have hc : isBlank c = true := hl c List.mem_cons_self
    have hne : (c == ',') = false := by
      rw [beq_eq_false_iff_ne]
      rintro rfl
      simp at hc
    have hblank : Blank [c] := by simpa [Blank] using hc
    have htrim (p : List Char) : trim (c :: p) = trim p := by
      simpa using trim_append hblank blank_nil p
    rw [← ih fun d hd => hl d (List.mem_cons_of_mem c hd), List.cons_append,
      List.splitOn_cons_eq_if_modifyHead, hne]
    cases (l ++ cs).splitOn ',' with
    | nil => rfl
    | cons p ps => simp [htrim]

/-- Trimming at the front may be left to the first word. -/
theorem splitWords_eq (cs : List Char) :
    splitWords cs =
      ((dropEndWhile (· == ',') (dropEndWhile isBlank cs)).splitOn ',').map trim := by
  have hblank : Blank (cs.takeWhile isBlank) := fun _ => List.mem_takeWhile_imp
  rw [splitWords, trim]
  by_cases hall : Blank cs
  · have hstart : cs.dropWhile isBlank = [] := List.dropWhile_eq_nil_iff.mpr hall
    have hend : dropEndWhile isBlank cs = [] := List.rdropWhile_eq_nil_iff.mpr hall
    rw [hstart, hend]
    rfl
  · have hrest : ∃ c ∈ cs.dropWhile isBlank, isBlank c = false := by
      rw [← not_blank_iff]
      intro hrest
      rw [← List.takeWhile_append_dropWhile (p := isBlank) (l := cs)] at hall
      exact hall (hblank.append hrest)
    have hend : dropEndWhile isBlank cs =
        cs.takeWhile isBlank ++ dropEndWhile isBlank (cs.dropWhile isBlank) := by
      rw [← dropEndWhile_append_of_exists hrest, List.takeWhile_append_dropWhile]
    rw [hend, dropEndWhile_append_left (beq_comma_eq_false hblank.comma_not_mem),
      map_trim_splitOn_append hblank]

theorem layout_intercalate {ps : List (List Char)} (hps : ps ≠ []) (k : Nat) (hb : Blank b) :
    Layout (ps.map trim) ([','].intercalate ps ++ List.replicate k ',' ++ b) := by
  induction ps with
  | nil => exact absurd rfl hps
  | cons p ps ih =>
    cases ps with
    | nil => simpa using Layout.last k (padded_trim p) hb
    | cons q ps =>
      rw [List.intercalate_cons_cons]
      simpa using Layout.cons (padded_trim p) (ih (by simp))

theorem layout_splitWords (cs : List Char) : Layout (splitWords cs) cs := by
  obtain ⟨b, hb, hcs⟩ := exists_dropEndWhile_append isBlank cs
  obtain ⟨k, hend⟩ := exists_commas_append (dropEndWhile isBlank cs)
  have hpieces : (dropEndWhile (· == ',') (dropEndWhile isBlank cs)).splitOn ',' ≠ [] :=
    List.splitOn_ne_nil _ _
  have h := layout_intercalate hpieces k hb
  rw [List.intercalate_splitOn, ← hend, ← hcs] at h
  rwa [splitWords_eq]

/-- What a word must be for a text to show it: it has no comma, and it is not blank. -/
def Visible (w : List Char) : Prop := ',' ∉ w ∧ ¬ Blank w

/-- A word of neither blanks nor commas. -/
def Solid (w : List Char) : Prop := w ≠ [] ∧ ∀ c ∈ w, isBlank c = false ∧ c ≠ ','

theorem Solid.visible (h : Solid w) : Visible w := by
  refine ⟨fun hcomma => (h.2 _ hcomma).2 rfl, ?_⟩
  obtain ⟨c, hc⟩ := List.exists_mem_of_ne_nil w h.1
  exact not_blank_iff.mpr ⟨c, hc, (h.2 c hc).1⟩

theorem Solid.trim_eq (h : Solid w) : trim w = w := trim_eq_self fun c hc => (h.2 c hc).1

theorem Layout.exists_mem (h : Layout (w :: ws) cs) (hw : ∀ w' ∈ w :: ws, Visible w') :
    ∃ c ∈ cs, isBlank c = false ∧ c ≠ ',' := by
  obtain ⟨hcomma, hblank⟩ := hw w List.mem_cons_self
  obtain ⟨c, hc, hcb⟩ := not_blank_iff.mp hblank
  have hne : c ≠ ',' := fun heq => hcomma (heq ▸ hc)
  cases h with
  | last k hp hb => exact ⟨c, by simp [hp.subset hc], hcb, hne⟩
  | cons hp h => exact ⟨c, by simp [hp.subset hc], hcb, hne⟩

theorem dropEndWhile_comma (h : ',' ∉ cs) : dropEndWhile (· == ',') cs = cs :=
  dropEndWhile_eq_self (beq_comma_eq_false h)

theorem splitWords_last (hp : Padded w p) (hw : ',' ∉ w) (k : Nat) (hb : Blank b) :
    splitWords (p ++ List.replicate k ',' ++ b) = [trim w] := by
  have hp_comma : ',' ∉ p := hp.comma_not_mem hw
  rw [splitWords_eq, dropEndWhile_append_of_forall hb]
  cases k with
  | zero =>
    have hsub : ',' ∉ dropEndWhile isBlank p := fun hc => hp_comma (dropEndWhile_subset _ _ hc)
    rw [List.replicate_zero, List.append_nil, dropEndWhile_comma hsub,
      List.splitOn_eq_singleton hsub, List.map_singleton, trim_dropEndWhile, hp.trim_eq]
  | succ k =>
    have hcommas : ∀ c ∈ List.replicate (k + 1) ',', c = ',' := fun c => List.eq_of_mem_replicate
    have hnone : ∀ c ∈ List.replicate (k + 1) ',', isBlank c = false := by
      intro c hc
      rw [hcommas c hc, isBlank_comma]
    rw [dropEndWhile_append_of_exists ⟨',', by simp, isBlank_comma⟩, dropEndWhile_eq_self hnone,
      dropEndWhile_append_of_forall (by simp), dropEndWhile_comma hp_comma,
      List.splitOn_eq_singleton hp_comma, List.map_singleton, hp.trim_eq]

/-- Even a text without words splits into one, the empty word. -/
theorem splitWords_of_layout_nil (h : Layout [] cs) : splitWords cs = [[]] := by
  cases h with
  | @none p b k hp hb =>
    have hpad : Padded [] p := ⟨p, [], hp, blank_nil, by simp⟩
    exact splitWords_last hpad List.not_mem_nil k hb

theorem splitWords_of_layout (h : Layout ws cs) (hne : ws ≠ []) (hws : ∀ w ∈ ws, Visible w) :
    splitWords cs = ws.map trim := by
  induction h with
  | none => exact absurd rfl hne
  | @last w p b k hp hb => exact splitWords_last hp (hws w (by simp)).1 k hb
  | @cons w w' p cs ws hp h ih =>
    have hp_comma : ',' ∉ p := hp.comma_not_mem (hws w (by simp)).1
    have hws' : ∀ v ∈ w' :: ws, Visible v := fun v hv => hws v (List.mem_cons_of_mem w hv)
    obtain ⟨c, hc, hcb, hne⟩ := h.exists_mem hws'
    have hblanks : dropEndWhile isBlank (p ++ ',' :: cs) =
        p ++ [','] ++ dropEndWhile isBlank cs := by
      rw [List.append_cons, dropEndWhile_append_of_exists ⟨c, hc, hcb⟩]
    have hcommas : dropEndWhile (· == ',') (p ++ [','] ++ dropEndWhile isBlank cs) =
        p ++ ',' :: dropEndWhile (· == ',') (dropEndWhile isBlank cs) := by
      rw [dropEndWhile_append_of_exists ⟨c, mem_dropEndWhile hc hcb, by simp [hne]⟩,
        List.append_assoc, List.singleton_append]
    have htail : ((dropEndWhile (· == ',') (dropEndWhile isBlank cs)).splitOn ',').map trim =
        (w' :: ws).map trim := by
      rw [← splitWords_eq, ih (by simp) hws']
    rw [splitWords_eq, hblanks, hcommas, List.splitOn_append_cons_self_of_not_mem hp_comma,
      List.map_cons, hp.trim_eq, htail]
    rfl

theorem splitWords_of_solid (h : Layout ws cs) (hne : ws ≠ []) (hws : ∀ w ∈ ws, Solid w) :
    splitWords cs = ws := by
  rw [splitWords_of_layout h hne fun w hw => (hws w hw).visible,
    List.map_congr_left fun w hw => (hws w hw).trim_eq, List.map_id']

end TokenSet

end Lookahead
