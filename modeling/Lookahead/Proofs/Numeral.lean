import Lookahead.Text.Numeral
import Mathlib.Data.List.Induction

/-!
# Numerals and their values

`numeral?_eq_some_iff`: the reader takes the numerals, each for its value.
Digits as they are written have one form for each value and length
(`Digits.eq_of_length_eq`), and one without zeros in front (`Digits.eq_toDigits`).
-/

namespace Lookahead.Text

/-- A digit below the base, a letter in either case. -/
def IsDigit (base : Nat) (c : Char) (d : Nat) : Prop :=
  d < base ∧ (c = d.digitChar ∨ c = d.digitChar.toUpper)

/-- One or more digits and their value. -/
inductive Digits (base : Nat) : List Char → Nat → Prop
  | one : IsDigit base c d → Digits base [c] d
  | more : Digits base cs n → IsDigit base c d → Digits base (cs ++ [c]) (base * n + d)

/-- At most one `+`, then digits. -/
inductive Numeral (base : Nat) : List Char → Nat → Prop
  | plain : Digits base cs n → Numeral base cs n
  | signed : Digits base cs n → Numeral base ('+' :: cs) n

theorem toNat_digitChar :
    ∀ d < 16, d.digitChar.toNat = (if d < 10 then 48 + d else 87 + d) ∧
      d.digitChar.toUpper.toNat = (if d < 10 then 48 + d else 55 + d) := by
  decide

theorem isDigit_iff_toNat (hb : base ≤ 16) : IsDigit base c d ↔
    d < base ∧ (c.toNat = 48 + d ∧ d < 10 ∨ (c.toNat = 87 + d ∨ c.toNat = 55 + d) ∧ 10 ≤ d) := by
  refine and_congr_right fun hd => ?_
  obtain ⟨hlow, hup⟩ := toNat_digitChar d (by omega)
  rw [← Char.toNat_inj, ← Char.toNat_inj, hlow, hup]
  split <;> omega

theorem digit?_eq_some_iff (hb : base ≤ 16) : digit? base c = some d ↔ IsDigit base c d := by
  have hcode : digit? base c =
      let value :=
        if 48 ≤ c.toNat ∧ c.toNat ≤ 57 then c.toNat - 48
        else if 97 ≤ c.toNat ∧ c.toNat ≤ 122 then c.toNat - 97 + 10
        else if 65 ≤ c.toNat ∧ c.toNat ≤ 90 then c.toNat - 65 + 10
        else base
      if value < base then some value else none := by
    simp only [digit?, Bool.and_eq_true, decide_eq_true_eq]
    rfl
  rw [hcode, isDigit_iff_toNat hb]
  simp only [Option.ite_none_right_eq_some, Option.some.injEq]
  split
  · omega
  split
  · omega
  split <;> omega

-- ---------------------------------------------------------------------------
-- Reading
-- ---------------------------------------------------------------------------

theorem digits?_concat (base before : Nat) (cs : List Char) (c : Char) :
    digits? base before (cs ++ [c]) =
      (digits? base before cs).bind fun n => (digit? base c).map (base * n + ·) := by
  induction cs generalizing before with
  | nil => cases hd : digit? base c <;> simp [digits?, hd]
  | cons b cs ih =>
    cases hb : digit? base b with
    | none => simp [digits?, hb]
    | some d => simp [digits?, hb, ih]

theorem digits_iff (hb : base ≤ 16) :
    Digits base cs n ↔ cs ≠ [] ∧ digits? base 0 cs = some n := by
  constructor
  · intro h
    induction h with
    | one hd => simp [digits?, (digit?_eq_some_iff hb).mpr hd]
    | more _ hd ih => simp [digits?_concat, ih.2, (digit?_eq_some_iff hb).mpr hd]
  · rintro ⟨hne, h⟩
    induction cs using List.reverseRecOn generalizing n with
    | nil => exact absurd rfl hne
    | append_singleton cs c ih =>
      rw [digits?_concat] at h
      obtain ⟨m, hm, h⟩ := Option.bind_eq_some_iff.mp h
      obtain ⟨d, hd, rfl⟩ := Option.map_eq_some_iff.mp h
      rw [digit?_eq_some_iff hb] at hd
      by_cases hnil : cs = []
      · subst hnil
        cases hm
        simpa using Digits.one hd
      · exact .more (ih hnil hm) hd

theorem Digits.dropSign_eq (h : Digits base cs n) (hb : base ≤ 16) : dropSign cs = cs := by
  unfold dropSign
  split
  · -- A plus is no digit, so no digits begin with it.
    have hread := ((digits_iff hb).mp h).2
    simp [digits?, digit?] at hread
  · rfl

theorem numeral_iff (hb : base ≤ 16) : Numeral base cs n ↔ Digits base (dropSign cs) n := by
  constructor
  · rintro (h | h)
    · rwa [h.dropSign_eq hb]
    · exact h
  · intro h
    unfold dropSign at h
    split at h
    · exact .signed h
    · exact .plain h

theorem numeral?_eq_some_iff (hb : base ≤ 16) : numeral? base cs = some n ↔ Numeral base cs n := by
  rw [numeral_iff hb, digits_iff hb, numeral?]
  split
  · next hnil => simp [hnil]
  · next hne => simpa using fun _ => hne

theorem word?_eq_some_iff (hb : base ≤ 16) {w : BitVec bits} :
    word? bits base cs = some w ↔ Numeral base cs w.toNat := by
  rw [← numeral?_eq_some_iff hb, word?]
  constructor
  · intro h
    obtain ⟨n, hn, h⟩ := Option.bind_eq_some_iff.mp h
    split at h
    next hlt =>
      cases h
      rw [Nat.one_shiftLeft] at hlt
      rw [BitVec.toNat_ofNat, Nat.mod_eq_of_lt hlt]
      exact hn
    next => cases h
  · intro h
    simp [h, w.isLt, Nat.one_shiftLeft]

-- ---------------------------------------------------------------------------
-- Writing
-- ---------------------------------------------------------------------------

theorem isDigit_digitChar (hd : d < base) : IsDigit base d.digitChar d := ⟨hd, .inl rfl⟩

theorem digits_toDigits (hb : 1 < base) (n : Nat) : Digits base (Nat.toDigits base n) n := by
  induction n using Nat.base_induction base hb with
  | single d hd =>
    rw [Nat.toDigits_of_lt_base hd]
    exact .one (isDigit_digitChar hd)
  | digit n d hd hn ih =>
    rw [← Nat.toDigits_append_toDigits hb hn hd, Nat.toDigits_of_lt_base hd]
    exact .more ih (isDigit_digitChar hd)

theorem Digits.zero_cons (h : Digits base cs n) : Digits base ('0' :: cs) n := by
  induction h with
  | @one c d hd =>
    have hzero : IsDigit base '0' 0 := isDigit_digitChar (Nat.zero_lt_of_lt hd.1)
    simpa using Digits.more (.one hzero) hd
  | more _ hd ih => exact .more ih hd

theorem Digits.replicate_zero (h : Digits base cs n) (k : Nat) :
    Digits base (List.replicate k '0' ++ cs) n := by
  induction k with
  | zero => exact h
  | succ k ih => exact ih.zero_cons

theorem Digits.ne_nil (h : Digits base cs n) : cs ≠ [] := by
  cases h <;> simp

-- ---------------------------------------------------------------------------
-- Digits as they are written
-- ---------------------------------------------------------------------------

/-- A digit in the case in which digits are written. -/
def IsLower (base : Nat) (c : Char) : Prop := ∃ d < base, c = d.digitChar

theorem isLower_of_mem_toDigits (hb : 1 < base) (h : c ∈ Nat.toDigits base n) : IsLower base c := by
  induction n using Nat.base_induction base hb with
  | single d hd =>
    rw [Nat.toDigits_of_lt_base hd] at h
    exact ⟨d, hd, List.mem_singleton.mp h⟩
  | digit n d hd hn ih =>
    rw [← Nat.toDigits_append_toDigits hb hn hd, Nat.toDigits_of_lt_base hd, List.mem_append] at h
    rcases h with h | h
    · exact ih h
    · exact ⟨d, hd, List.mem_singleton.mp h⟩

theorem head?_toDigits_ne (hb : 1 < base) (hb' : base ≤ 16) (hn : 0 < n) :
    (Nat.toDigits base n).head? ≠ some '0' := by
  induction n using Nat.base_induction base hb with
  | single d hd =>
    have hall : ∀ e < 16, 0 < e → e.digitChar ≠ '0' := by decide
    rw [Nat.toDigits_of_lt_base hd]
    simpa using hall d (Nat.lt_of_lt_of_le hd hb') hn
  | digit n d hd hpos ih =>
    obtain ⟨c, cs, hcs⟩ := List.exists_cons_of_ne_nil (Nat.toDigits_ne_nil (n := n) (b := base))
    rw [← Nat.toDigits_append_toDigits hb hpos hd, hcs]
    rw [hcs] at ih
    exact ih hpos

theorem IsDigit.eq_digitChar (h : IsDigit base c d) (hb : base ≤ 16) (hc : IsLower base c) :
    c = d.digitChar := by
  obtain ⟨e, he, rfl⟩ := hc
  rw [isDigit_iff_toNat hb, (toNat_digitChar e (Nat.lt_of_lt_of_le he hb)).1] at h
  have hde : e = d := by
    split at h <;> omega
  rw [hde]

theorem Numeral.digits (h : Numeral base cs n) (hb : base ≤ 16) (hcs : ∀ c ∈ cs, IsLower base c) :
    Digits base cs n := by
  cases h with
  | plain h => exact h
  | signed _ =>
    obtain ⟨d, hd, hplus⟩ := hcs '+' List.mem_cons_self
    have hall : ∀ d < 16, '+' ≠ d.digitChar := by decide
    exact absurd hplus (hall d (Nat.lt_of_lt_of_le hd hb))

theorem Digits.eq_of_length_eq (h : Digits base cs n) (h' : Digits base cs' n)
    (hb : base ≤ 16) (hcs : ∀ c ∈ cs, IsLower base c) (hcs' : ∀ c ∈ cs', IsLower base c)
    (hlen : cs.length = cs'.length) : cs = cs' := by
  induction h generalizing cs' with
  | @one c d hd =>
    cases h' with
    | @one c' _ hd' =>
      rw [hd.eq_digitChar hb (hcs c (by simp)), hd'.eq_digitChar hb (hcs' c' (by simp))]
    | more h' _ => exact absurd (List.length_eq_zero_iff.mp (by simpa using hlen.symm)) h'.ne_nil
  | @more cs n c d h hd ih =>
    generalize hm : base * n + d = m at h'
    cases h' with
    | one _ => exact absurd (List.length_eq_zero_iff.mp (by simpa using hlen)) h.ne_nil
    | @more cs' n' c' d' h' hd' =>
      have hlast : d = d' := by
        have := congrArg (· % base) hm
        simpa [Nat.mul_add_mod, Nat.mod_eq_of_lt hd.1, Nat.mod_eq_of_lt hd'.1] using this
      subst hlast
      have hinit : n = n' :=
        Nat.eq_of_mul_eq_mul_left (Nat.zero_lt_of_lt hd.1) (Nat.add_right_cancel hm)
      subst hinit
      have hc := hd.eq_digitChar hb (hcs c (by simp))
      have hc' := hd'.eq_digitChar hb (hcs' c' (by simp))
      rw [ih h' (fun c hc => hcs c (by simp [hc])) (fun c hc => hcs' c (by simp [hc]))
        (by simpa using hlen), hc, hc']

theorem Digits.eq_toDigits (h : Digits base cs n) (hb : 1 < base) (hb' : base ≤ 16)
    (hcs : ∀ c ∈ cs, IsLower base c) (hlead : cs = ['0'] ∨ cs.head? ≠ some '0') :
    cs = Nat.toDigits base n := by
  induction h with
  | @one c d hd =>
    rw [Nat.toDigits_of_lt_base hd.1, hd.eq_digitChar hb' (hcs c (by simp))]
  | @more cs n c d h hd ih =>
    have hhead : cs.head? ≠ some '0' := by
      rcases hlead with hzero | hhead
      · exact absurd (List.append_eq_singleton_iff.mp hzero) (by simp [h.ne_nil])
      · intro hzero
        exact hhead (by rw [List.head?_append, hzero]; rfl)
    have hinit := ih (fun c hc => hcs c (by simp [hc])) (.inr hhead)
    have hpos : 0 < n := by
      refine Nat.pos_of_ne_zero fun hn => hhead ?_
      rw [hinit, hn, Nat.toDigits_zero]
      rfl
    rw [← Nat.toDigits_append_toDigits hb hpos hd.1, ← hinit, Nat.toDigits_of_lt_base hd.1,
      ← hd.eq_digitChar hb' (hcs c (by simp))]

end Lookahead.Text
