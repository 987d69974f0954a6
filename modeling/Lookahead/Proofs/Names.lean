import Lookahead.Proofs.CommandLine
import Lookahead.Proofs.Views

/-!
# Names and what they stand for

A token is looked up by its spelling and a production by its name, each through all of its alphabet.
Both lookups undo the naming and find nothing but what was named (`LooksUp`): a word in other
letters or with blanks around it is none of the words, and where a word goes on from another each of
them stands for itself. An index of the spellings says the same as the search: `lookups_exact`.
-/

namespace Lookahead

open Text (Padded isBlank)

/-- A folding of case, of whatever extent, that takes the ASCII letters to small ones. -/
def Folds (fold : Char → List Char) : Prop := ∀ c, c.toNat < 128 → fold c = [c.toLower]

/-- The lookup undoes the naming. The list is of the pairs of which the second is named by a word
that goes on from that of the first. -/
structure LooksUp (names : α → String → Prop) (lookup : String → Option α)
    (longer : List (α × α)) : Prop where
  eq_some_iff : ∀ s a, lookup s = some a ↔ names a s
  unique : ∀ s a b, names a s → names b s → a = b
  mem_longer_iff : ∀ a b, (a, b) ∈ longer ↔
    ∃ v w, names a v ∧ names b w ∧ v ≠ w ∧ v.toList <+: w.toList
  beginning : ∀ s a w, names a w → s ≠ w → s.toList <+: w.toList →
    ∀ b, lookup s = some b → (b, a) ∈ longer
  extension : ∀ s a w, names a w → s ≠ w → w.toList <+: s.toList →
    ∀ b, lookup s = some b → (a, b) ∈ longer
  case_variant : ∀ s a w fold, names a w → s ≠ w → Folds fold →
    s.toList.flatMap fold = w.toList.flatMap fold → lookup s = none
  padded : ∀ s a w, names a w → s ≠ w → Padded w.toList s.toList → lookup s = none

-- ---------------------------------------------------------------------------
-- Texts of graphic characters
-- ---------------------------------------------------------------------------

/-- The bytes of a text. They are at hand without decoding it. -/
def codes (s : String) : List Nat := s.toByteArray.data.toList.map UInt8.toNat

/-- The characters of names. -/
def IsGraphic (n : Nat) : Prop := 33 ≤ n ∧ n ≤ 126

instance (n : Nat) : Decidable (IsGraphic n) := inferInstanceAs (Decidable (_ ∧ _))

theorem utf8EncodeChar_of_graphic (h : ∀ b ∈ String.utf8EncodeChar c, IsGraphic b.toNat) :
    (String.utf8EncodeChar c).map UInt8.toNat = [c.toNat] := by
  have hcode : c.toNat = c.val.toNat := rfl
  unfold String.utf8EncodeChar at h ⊢
  simp only at h ⊢
  by_cases hone : c.val.toNat ≤ 127
  · have hmod : c.val.toNat % 2 ^ 8 = c.toNat := by omega
    rw [if_pos hone, List.map_singleton, UInt8.toNat_ofNat', hmod]
  · -- The first of several bytes is not graphic.
    rw [if_neg hone] at h
    split_ifs at h
    all_goals
      have hfirst := (h _ List.mem_cons_self).2
      simp at hfirst
      omega

theorem codes_eq {s : String} (h : ∀ n ∈ codes s, IsGraphic n) :
    codes s = s.toList.map Char.toNat := by
  have hbytes : s.toByteArray.data.toList = s.toList.flatMap String.utf8EncodeChar := by
    rw [← String.utf8Encode_toList, List.utf8Encode, List.toList_data_toByteArray]
  rw [codes, hbytes] at h ⊢
  rw [List.map_flatMap, List.map_eq_flatMap]
  refine List.flatMap_congr fun c hc => utf8EncodeChar_of_graphic fun b hb => ?_
  exact h _ (List.mem_map_of_mem (List.mem_flatMap.mpr ⟨c, hc, hb⟩))

theorem isBlank_of_graphic (h : IsGraphic c.toNat) : isBlank c = false := by
  obtain ⟨hlow, hup⟩ := h
  simp [isBlank, Text.blankRanges]
  omega

/-- The code of the letter in its small form. -/
def lowerCode (n : Nat) : Nat := if 65 ≤ n ∧ n ≤ 90 then n + 32 else n

theorem toNat_toLower {c : Char} (h : IsGraphic c.toNat) : c.toLower.toNat = lowerCode c.toNat := by
  have hall : ∀ n ≤ 126, (Char.ofNat n).toLower.toNat = lowerCode n := by decide
  simpa using hall c.toNat h.2

/-- The codes of the letters in their small forms. -/
def lowered (s : String) : List Nat := (codes s).map lowerCode

section
variable {v w : String}

theorem Folds.flatMap_eq (hfold : Folds fold) (hv : ∀ n ∈ codes v, IsGraphic n) :
    (v.toList.flatMap fold).map Char.toNat = lowered v := by
  have hcodes := codes_eq hv
  have hgraphic (c : Char) (hc : c ∈ v.toList) : IsGraphic c.toNat :=
    hv _ (hcodes ▸ List.mem_map_of_mem hc)
  rw [lowered, hcodes, List.map_flatMap, List.map_map, List.map_eq_flatMap]
  refine List.flatMap_congr fun c hc => ?_
  have hlow := hgraphic c hc
  rw [hfold c (Nat.lt_of_le_of_lt hlow.2 (by decide)), List.map_singleton, toNat_toLower hlow]
  rfl

theorem trim_toList (hv : ∀ n ∈ codes v, IsGraphic n) : Text.trim v.toList = v.toList := by
  refine Text.trim_eq_self fun c hc => isBlank_of_graphic (hv _ ?_)
  exact codes_eq hv ▸ List.mem_map_of_mem hc

theorem codes_prefix_iff (hv : ∀ n ∈ codes v, IsGraphic n) (hw : ∀ n ∈ codes w, IsGraphic n) :
    codes v <+: codes w ↔ v.toList <+: w.toList := by
  rw [codes_eq hv, codes_eq hw]
  exact List.prefix_map_iff_of_injective fun _ _ => Char.toNat_inj.mp

end

-- ---------------------------------------------------------------------------
-- Vocabularies
-- ---------------------------------------------------------------------------

/-- Names of graphic characters. Also in small letters a name goes on from another only in the pairs
of the list. -/
structure Vocabulary (words : List α) (name : α → String) (longer : List (α × α)) : Prop where
  graphic : ∀ a ∈ words, ∀ n ∈ codes (name a), IsGraphic n
  mem_longer : ∀ a ∈ words,
    ∀ b ∈ words.filter fun b => (lowered (name a)).isPrefixOf (lowered (name b)),
      a = b ∨ (a, b) ∈ longer
  of_longer : ∀ p ∈ longer, p.1 ∈ words ∧ p.2 ∈ words ∧
    codes (name p.1) ≠ codes (name p.2) ∧ codes (name p.1) <+: codes (name p.2)

namespace Vocabulary

instance [DecidableEq α] (words : List α) (name : α → String) (longer : List (α × α)) :
    Decidable (Vocabulary words name longer) :=
  decidable_of_iff (_ ∧ _ ∧ _) ⟨fun ⟨h₁, h₂, h₃⟩ => ⟨h₁, h₂, h₃⟩, fun ⟨h₁, h₂, h₃⟩ => ⟨h₁, h₂, h₃⟩⟩

variable {words : List α} {name : α → String} {longer : List (α × α)}
  (h : Vocabulary words name longer) (ha : a ∈ words) (hb : b ∈ words)
include h ha hb

theorem mem_longer_of_lowered (hstart : lowered (name a) <+: lowered (name b)) :
    a = b ∨ (a, b) ∈ longer :=
  h.mem_longer a ha b (List.mem_filter.mpr ⟨hb, List.isPrefixOf_iff_prefix.mpr hstart⟩)

theorem mem_longer_iff :
    (a, b) ∈ longer ↔ name a ≠ name b ∧ (name a).toList <+: (name b).toList := by
  rw [← codes_prefix_iff (h.graphic a ha) (h.graphic b hb)]
  constructor
  · intro hmem
    obtain ⟨-, -, hne, hstart⟩ := h.of_longer _ hmem
    exact ⟨fun heq => hne (congrArg codes heq), hstart⟩
  · rintro ⟨hne, hstart⟩
    refine (h.mem_longer_of_lowered ha hb (hstart.map _)).resolve_left ?_
    rintro rfl
    exact hne rfl

theorem eq_of_lowered (heq : lowered (name a) = lowered (name b)) : a = b := by
  refine (h.mem_longer_of_lowered ha hb (heq ▸ List.prefix_rfl)).resolve_right fun hmem => ?_
  obtain ⟨-, -, hne, hstart⟩ := h.of_longer _ hmem
  have hlength : (codes (name a)).length = (codes (name b)).length := by
    simpa [lowered] using congrArg List.length heq
  exact hne (hstart.eq_of_length hlength)

omit ha hb in
theorem looksUp {names : α → String → Prop} {lookup : String → Option α}
    (hnames : ∀ {a s}, names a s ↔ a ∈ words ∧ name a = s)
    (hfind : ∀ {s a}, lookup s = some a ↔ names a s) : LooksUp names lookup longer where
  eq_some_iff _ _ := hfind
  unique _ _ _ ha hb := Option.some.inj ((hfind.mpr ha).symm.trans (hfind.mpr hb))
  mem_longer_iff a b := by
    constructor
    · intro hmem
      obtain ⟨ha, hb, -⟩ := h.of_longer _ hmem
      obtain ⟨hne, hstart⟩ := (h.mem_longer_iff ha hb).mp hmem
      exact ⟨_, _, hnames.mpr ⟨ha, rfl⟩, hnames.mpr ⟨hb, rfl⟩, hne, hstart⟩
    · rintro ⟨v, w, hv, hw, hne, hstart⟩
      obtain ⟨ha, rfl⟩ := hnames.mp hv
      obtain ⟨hb, rfl⟩ := hnames.mp hw
      exact (h.mem_longer_iff ha hb).mpr ⟨hne, hstart⟩
  beginning s a w hw hne hstart b hfound := by
    obtain ⟨ha, rfl⟩ := hnames.mp hw
    obtain ⟨hb, rfl⟩ := hnames.mp (hfind.mp hfound)
    exact (h.mem_longer_iff hb ha).mpr ⟨hne, hstart⟩
  extension s a w hw hne hstart b hfound := by
    obtain ⟨ha, rfl⟩ := hnames.mp hw
    obtain ⟨hb, rfl⟩ := hnames.mp (hfind.mp hfound)
    exact (h.mem_longer_iff ha hb).mpr ⟨hne.symm, hstart⟩
  case_variant s a w fold hw hne hfold heq := by
    refine Option.eq_none_iff_forall_ne_some.mpr fun b hfound => hne ?_
    obtain ⟨ha, rfl⟩ := hnames.mp hw
    obtain ⟨hb, rfl⟩ := hnames.mp (hfind.mp hfound)
    have hlowered : lowered (name b) = lowered (name a) := by
      rw [← hfold.flatMap_eq (h.graphic b hb), heq, hfold.flatMap_eq (h.graphic a ha)]
    rw [h.eq_of_lowered hb ha hlowered]
  padded s a w hw hne hpadded := by
    refine Option.eq_none_iff_forall_ne_some.mpr fun b hfound => hne ?_
    obtain ⟨ha, rfl⟩ := hnames.mp hw
    obtain ⟨hb, rfl⟩ := hnames.mp (hfind.mp hfound)
    have htrim := hpadded.trim_eq
    rw [trim_toList (h.graphic b hb), trim_toList (h.graphic a ha)] at htrim
    exact String.toList_inj.mp htrim

end Vocabulary

-- ---------------------------------------------------------------------------
-- Spellings
-- ---------------------------------------------------------------------------

namespace Token

/-- The tokens with one spelling. -/
def spelled : List Token := all.filter (·.lexeme?.isSome)

theorem lexeme?_eq_some_iff {t : Token} : t.lexeme? = some s ↔ t ∈ spelled ∧ t.name = s := by
  rw [spelled, List.mem_filter]
  cases h : t.lexeme? with
  | none => simp
  | some w => simp [mem_all, name, h]

theorem ofLexeme?_eq_some_iff {s : String} : ofLexeme? s = some t ↔ t.lexeme? = some s := by
  have hlexeme {t : Token} (h : ofLexeme? s = some t) : t.lexeme? = some s := by
    simpa using List.find?_some h
  refine ⟨hlexeme, fun ht => ?_⟩
  cases h : ofLexeme? s with
  | none => simpa [ht] using List.find?_eq_none.mp h t t.mem_all
  | some u =>
    have hname := (lexeme?_eq_some_iff.mp (hlexeme h)).2
    rw [name_injective (hname.trans (lexeme?_eq_some_iff.mp ht).2.symm)]

theorem ofLexeme?_name_of_none {t : Token} (h : t.lexeme? = none) : ofLexeme? t.name = none := by
  refine Option.eq_none_iff_forall_ne_some.mpr fun u hu => ?_
  have hlexeme := ofLexeme?_eq_some_iff.mp hu
  obtain rfl : u = t := name_injective (lexeme?_eq_some_iff.mp hlexeme).2
  exact Option.some_ne_none _ (hlexeme.symm.trans h)

/-- The tokens by their spellings. Of two that had the same spelling it would keep the last. -/
def lexemeIndex : Std.HashMap String Token :=
  .ofList (all.filterMap fun t => t.lexeme?.map (·, t))

theorem lexemeIndex_eq : lexemeIndex = .ofList (spelled.map fun t => (t.name, t)) := by
  have hentries : all.filterMap (fun t => t.lexeme?.map (·, t)) =
      spelled.map fun t => (t.name, t) := by
    rw [spelled, ← List.filterMap_eq_map', List.filterMap_filter]
    refine List.filterMap_congr fun t _ => ?_
    cases h : t.lexeme? <;> simp [name, h]
  rw [lexemeIndex, hentries]

theorem pairwise_spelled :
    (spelled.map fun t => (t.name, t)).Pairwise fun a b => (a.1 == b.1) = false := by
  have h : all.Nodup := by
    refine List.Nodup.of_map ordinal ?_
    rw [map_ordinal_all]
    exact List.nodup_range
  refine List.pairwise_map.mpr ((h.filter _).imp fun {t u} hne => ?_)
  simpa using name_injective.ne hne

theorem lexemeIndex_getElem? (s : String) : lexemeIndex[s]? = ofLexeme? s := by
  rw [lexemeIndex_eq]
  cases h : ofLexeme? s with
  | none =>
    refine Std.HashMap.getElem?_ofList_of_contains_eq_false ?_
    rw [List.contains_eq_mem, decide_eq_false_iff_not, List.map_map, List.mem_map]
    rintro ⟨t, ht, hs⟩
    have hfound := ofLexeme?_eq_some_iff.mpr (lexeme?_eq_some_iff.mpr ⟨ht, hs⟩)
    exact Option.some_ne_none t (hfound.symm.trans h)
  | some t =>
    obtain ⟨ht, rfl⟩ := lexeme?_eq_some_iff.mp (ofLexeme?_eq_some_iff.mp h)
    exact Std.HashMap.getElem?_ofList_of_mem (beq_self_eq_true t.name) pairwise_spelled
      (List.mem_map_of_mem ht)

theorem size_lexemeIndex : lexemeIndex.size = spelled.length := by
  rw [lexemeIndex_eq, Std.HashMap.size_ofList pairwise_spelled, List.length_map]

/-- Spellings, and those that go on from them. -/
def longer : List (Token × Token) :=
  [(.MOD, .MODULE), (.less, .lessEqual), (.greater, .greaterEqual), (.colon, .assign),
   (.period, .range)]

end Token

/-- Names, and those that go on from them. -/
def Production.longer : List (Production × Production) :=
  [(.definition, .definitionModule), (.formalType, .formalTypeList),
   (.statement, .statementSequence), (.case, .caseStatement), (.case, .caseLabelList),
   (.case, .caseLabels), (.designator, .designatorOrFuncCall), (.expression, .expressionList),
   (.type, .typeDefinition), (.type, .typeDeclaration), (.fieldList, .fieldListSequence),
   (.variant, .variantFieldList)]

-- ---------------------------------------------------------------------------
-- Both lookups
-- ---------------------------------------------------------------------------

theorem Token.vocabulary : Vocabulary spelled name longer := by decide +kernel

theorem Production.vocabulary : Vocabulary all name longer := by decide +kernel

theorem lookups_exact :
    LooksUp (fun t s => t.lexeme? = some s) Token.ofLexeme? Token.longer ∧
    LooksUp (fun p s => p.name = s) Production.ofName? Production.longer ∧
    (∀ s, Token.lexemeIndex[s]? = Token.ofLexeme? s) ∧
    Token.lexemeIndex.size = (Token.all.filter (·.lexeme?.isSome)).length ∧
    ∀ t : Token, t.lexeme? = none → Token.ofLexeme? t.name = none := by
  refine ⟨?_, ?_, Token.lexemeIndex_getElem?, Token.size_lexemeIndex, fun t => ?_⟩
  · exact Token.vocabulary.looksUp Token.lexeme?_eq_some_iff Token.ofLexeme?_eq_some_iff
  · exact Production.vocabulary.looksUp (by simp [Production.mem_all])
      Production.ofName?_eq_some_iff
  · exact Token.ofLexeme?_name_of_none

theorem lookups_exact_of_texts :
    Token.ofLexeme? "module" = none ∧ Token.ofLexeme? " MOD " = none ∧
    Token.ofLexeme? "MODULES" = none ∧ Token.ofLexeme? "end of file" = none ∧
    Token.lexemeIndex["MOD"]? = some .MOD ∧ Production.ofName? "case" = some .case := by
  obtain ⟨htoken, hproduction, hindex, -, hname⟩ := lookups_exact
  have hpadded : Padded "MOD".toList " MOD ".toList :=
    ⟨[' '], [' '], by simp [Text.Blank], by simp [Text.Blank], by simp⟩
  refine ⟨?_, ?_, ?_, hname .endOfFile rfl, ?_, ?_⟩
  · exact htoken.case_variant "module" .MODULE "MODULE" (fun c => [c.toLower]) rfl (by decide)
      (fun _ _ => rfl) (by simp)
  · exact htoken.padded " MOD " .MOD "MOD" rfl (by decide) hpadded
  · refine Option.eq_none_iff_forall_ne_some.mpr fun t ht => ?_
    have hlonger := htoken.extension "MODULES" .MODULE "MODULE" rfl (by decide) (by simp) t ht
    simp [Token.longer] at hlonger
  · exact (hindex "MOD").trans ((htoken.eq_some_iff "MOD" .MOD).mpr rfl)
  · exact (hproduction.eq_some_iff "case" .case).mpr rfl

/-- A beginning of a spelling that is a spelling too. -/
theorem beginning_found :
    Token.lexeme? .MODULE = some "MODULE" ∧ "MOD" ≠ "MODULE" ∧
    "MOD".toList <+: "MODULE".toList ∧ Token.ofLexeme? "MOD" = some .MOD :=
  ⟨rfl, by decide, by simp, Token.ofLexeme?_eq_some_iff.mpr rfl⟩

end Lookahead
