import Mathlib.Data.List.TakeWhile
import WireSchema.Proofs.TokenValues

/-!
# Tokens are read alike wherever they stand

A token is as long as it can be, so it could be cut elsewhere if another text followed it. Before a
blank, a comment or the end of the text it cannot (`Lexeme.exists_first_append`): none of these
continues a word, a numeral or its fraction or exponent, and strings and symbols show their own end.
-/

namespace WireSchema

open Text (isBlank isDecimalDigit isWordRest isWordStart)

namespace Text

/-! ## Characters that continue no token -/

theorem Run.anyContains_eq_false_of_disjoint {rs qs : List Run} {n : Nat}
    (hdisjoint : (rs.all fun r => qs.all fun q => r.last < q.first || q.last < r.first) = true)
    (hn : anyContains rs n = true) : anyContains qs n = false := by
  obtain ⟨r, hr, hrn⟩ := List.any_eq_true.mp hn
  refine List.any_eq_false.mpr fun q hq hqn => ?_
  have hapart := List.all_eq_true.mp (List.all_eq_true.mp hdisjoint r hr) q hq
  simp only [Run.contains, Bool.and_eq_true, Bool.or_eq_true, decide_eq_true_eq] at hrn hqn hapart
  omega

/-- No blank is a visible ASCII character. -/
theorem not_visible_of_isBlank {c : Char} (h : isBlank c = true) :
    ¬ (0x21 ≤ c.toNat ∧ c.toNat ≤ 0x7E) := by
  have hruns : Run.anyContains [⟨0x21, 0x7E, 1⟩] c.toNat = false :=
    Run.anyContains_eq_false_of_disjoint (by decide) h
  simpa [Run.anyContains, Run.contains, Nat.mod_one] using hruns

theorem isAlpha_iff {c : Char} : c.isAlpha = true ↔
    (0x41 ≤ c.toNat ∧ c.toNat ≤ 0x5A) ∨ (0x61 ≤ c.toNat ∧ c.toNat ≤ 0x7A) := by
  change (decide ('A'.val ≤ c.val ∧ c.val ≤ 'Z'.val) ||
    decide ('a'.val ≤ c.val) && decide (c.val ≤ 'z'.val)) = true ↔ _
  simp only [Bool.or_eq_true, Bool.and_eq_true, decide_eq_true_eq, UInt32.le_iff_toNat_le]
  exact Iff.rfl

theorem isDigit_iff {c : Char} : c.isDigit = true ↔ 0x30 ≤ c.toNat ∧ c.toNat ≤ 0x39 := by
  change (decide ('0'.val ≤ c.val) && decide (c.val ≤ '9'.val)) = true ↔ _
  simp only [Bool.and_eq_true, decide_eq_true_eq, UInt32.le_iff_toNat_le]
  exact Iff.rfl

/-- The characters of words are visible ASCII characters. -/
theorem visible_of_isWordRest {c : Char} (h : isWordRest c = true) :
    0x21 ≤ c.toNat ∧ c.toNat ≤ 0x7E := by
  simp only [isWordRest, Char.isAlphanum, Bool.or_eq_true, isAlpha_iff, isDigit_iff,
    decide_eq_true_eq] at h
  rcases h with (halpha | hdigit) | rfl
  · omega
  · omega
  · decide

theorem isDecimalDigit_eq_false_of_isBlank {c : Char} (h : isBlank c = true) :
    isDecimalDigit c = false := by
  have hascii : c.isDigit = false := by
    refine Bool.eq_false_iff.mpr fun hdigit => not_visible_of_isBlank h (visible_of_isWordRest ?_)
    simp [isWordRest, Char.isAlphanum, hdigit]
  have hruns : Run.anyContains decimalDigitRuns c.toNat = false :=
    Run.anyContains_eq_false_of_disjoint (by decide) h
  simp [isDecimalDigit, hascii, hruns]

theorem isDecimalDigit_eq_false_of_isWordStart {c : Char} (h : isWordStart c = true) :
    isDecimalDigit c = false := by
  have hascii : ¬ 128 ≤ c.toNat := by
    have := (visible_of_isWordRest (isWordRest_of_isWordStart h)).2
    omega
  have hdigit : c.isDigit = false := by
    refine Bool.eq_false_iff.mpr fun hdigit => ?_
    rw [isDigit_iff] at hdigit
    simp only [isWordStart, Bool.or_eq_true, isAlpha_iff, decide_eq_true_eq] at h
    rcases h with halpha | rfl
    · omega
    · exact absurd hdigit (by decide)
  simp [isDecimalDigit, hdigit, hascii]

end Text

namespace Segment

/-- The text `rest` starts with nothing that continues a token: it is empty, or starts with a blank
or a comment. -/
def Delimited (rest : List Char) : Prop :=
  ∀ c ∈ rest.head?, isBlank c = true ∨ c = '/'

namespace Delimited

variable {rest : List Char}

/-- What is delimited does not start with a digit. -/
theorem isDecimalDigit_head (h : Delimited rest) : ∀ c ∈ rest.head?, isDecimalDigit c = false := by
  intro c hc
  rcases h c hc with hblank | rfl
  · exact Text.isDecimalDigit_eq_false_of_isBlank hblank
  · decide

theorem isWordRest_head (h : Delimited rest) : ∀ c ∈ rest.head?, isWordRest c = false := by
  intro c hc
  rcases h c hc with hblank | rfl
  · exact Bool.eq_false_iff.mpr fun hword =>
      Text.not_visible_of_isBlank hblank (Text.visible_of_isWordRest hword)
  · decide

/-- Nor does it start with a point. -/
theorem point_notMem_head (h : Delimited rest) : '.' ∉ rest.head? := by
  intro hc
  rcases h '.' hc with hblank | hslash
  · exact absurd hblank (by decide)
  · exact absurd hslash (by decide)

theorem mark_notMem_head (h : Delimited rest) {c : Char} (hc : c ∈ rest.head?) :
    c ≠ 'e' ∧ c ≠ 'E' := by
  have hword := h.isWordRest_head c hc
  constructor <;> rintro rfl <;> exact absurd hword (by decide)

end Delimited

/-! ## Strings and numerals -/

/-- A string ends where it ended, whatever follows. -/
theorem closeString_append_of_some {cs body rest : List Char}
    (h : closeString cs = some (body, rest))
    (rest' : List Char) : closeString (body ++ rest') = some (body, rest') := by
  fun_induction closeString cs generalizing body rest with
  | case1 | case3 | case4 | case5 => cases h
  | case2 rest =>
    obtain ⟨rfl, -⟩ := Prod.mk.inj (Option.some.inj h)
    rfl
  | case6 c cs hnewline ih =>
    obtain ⟨⟨b, r⟩, hb, he⟩ := Option.map_eq_some_iff.mp h
    obtain ⟨rfl, -⟩ := Prod.mk.inj he
    simp [closeString, ih hb]
  | case7 c cs hquote hnewline hend hescape hescaped ih =>
    obtain ⟨⟨b, r⟩, hb, he⟩ := Option.map_eq_some_iff.mp h
    obtain ⟨rfl, -⟩ := Prod.mk.inj he
    have hbackslash : c ≠ '\\' := by
      intro hc
      cases cs with
      | nil => exact hend hc rfl
      | cons d ds => exact hescaped d ds hc rfl
    rw [List.cons_append, closeString, ih hb]
    · rfl
    all_goals simp_all

/-- **A run of one sort ends at the first character of another sort.** -/
theorem span_append {p : Char → Bool} {xs rest : List Char} (hxs : ∀ c ∈ xs, p c = true)
    (hrest : ∀ c ∈ rest.head?, p c = false) :
    (xs ++ rest).takeWhile p = xs ∧ (xs ++ rest).dropWhile p = rest := by
  rw [List.takeWhile_append_of_pos hxs, List.dropWhile_append_of_pos hxs]
  cases rest with
  | nil => simp
  | cons c cs =>
    have hc : p c = false := hrest c rfl
    simp [hc]

theorem takeWhile_digits (cs : List Char) :
    ∀ c ∈ cs.takeWhile isDecimalDigit, isDecimalDigit c = true :=
  fun _ hc => List.mem_takeWhile_imp hc

/-- A sign is found again before digits: they start with none. -/
theorem exponentSign_append_digits (cs : List Char) {digits : List Char} (hne : digits ≠ [])
    (hdigits : ∀ c ∈ digits, isDecimalDigit c = true) (rest : List Char) :
    exponentSign ((exponentSign cs).1 ++ (digits ++ rest)) =
      ((exponentSign cs).1, digits ++ rest) := by
  obtain ⟨d, ds, rfl⟩ := List.exists_cons_of_ne_nil hne
  have hd := hdigits d List.mem_cons_self
  have hplus : d ≠ '+' := Grammar.ne_of_isDecimalDigit hd (by decide)
  have hminus : d ≠ '-' := Grammar.ne_of_isDecimalDigit hd (by decide)
  have hsign : (exponentSign cs).1 = [] ∨ (exponentSign cs).1 = ['+'] ∨
      (exponentSign cs).1 = ['-'] := by
    unfold exponentSign
    split <;> simp
  rcases hsign with h | h | h <;> rw [h] <;> simp [exponentSign, hplus, hminus]

/-- A sign is cut off in front of digits as before. -/
theorem sign_append_digits (cs : List Char) {digits : List Char} (hne : digits ≠ [])
    (hdigits : ∀ c ∈ digits, isDecimalDigit c = true) (rest : List Char) :
    sign ((sign cs).1 ++ (digits ++ rest)) = ((sign cs).1, digits ++ rest) := by
  obtain ⟨d, ds, rfl⟩ := List.exists_cons_of_ne_nil hne
  have hminus : d ≠ '-' := Grammar.ne_of_isDecimalDigit (hdigits d List.mem_cons_self) (by decide)
  obtain ⟨negative, h⟩ := exists_sign_eq cs
  cases negative <;> rw [h] <;> simp [sign, hminus]

/-- An exponent ends where it ended, if what follows is delimited. -/
theorem exponent_append_of_delimited (cs : List Char) {rest : List Char} (hrest : Delimited rest) :
    exponent ((exponent cs).1 ++ rest) = ((exponent cs).1, rest) := by
  have hnone : exponent rest = ([], rest) := by
    cases rest with
    | nil => rfl
    | cons c after =>
      have hmark := hrest.mark_notMem_head (c := c) rfl
      simp [exponent, hmark]
  cases cs with
  | nil => exact hnone
  | cons mark cs =>
    by_cases h : ((mark = 'e' || mark = 'E') &&
        !((exponentSign cs).2.takeWhile isDecimalDigit).isEmpty) = true
    · have hne : (exponentSign cs).2.takeWhile isDecimalDigit ≠ [] := by
        intro hnil
        simp [hnil] at h
      have hparts : (exponent (mark :: cs)).1 = mark :: ((exponentSign cs).1 ++
          (exponentSign cs).2.takeWhile isDecimalDigit) := by
        simp only [exponent, if_pos h, List.cons_append]
      have hspan := span_append (takeWhile_digits (exponentSign cs).2) hrest.isDecimalDigit_head
      rw [hparts, List.cons_append, List.append_assoc, exponent]
      simp only [exponentSign_append_digits cs hne (takeWhile_digits _), hspan, if_pos h,
        List.cons_append]
    · have hparts : (exponent (mark :: cs)).1 = [] := by
        simp only [exponent, if_neg h]
      rw [hparts]
      exact hnone

/-- So does a fraction. -/
theorem fraction_append_of_delimited {cs body rest : List Char}
    (h : fraction cs = some (body, rest))
    {rest' : List Char} (hrest : Delimited rest') :
    fraction (body ++ rest') = some (body, rest') := by
  unfold fraction at h
  split at h
  · rename_i after
    split at h
    · cases h
    · rename_i hne
      simp only [Option.some.injEq, Prod.mk.injEq] at h
      obtain ⟨rfl, -⟩ := h
      -- the digits of the fraction end at the exponent mark, or where the numeral does
      have hend : ∀ c ∈ ((exponent (after.dropWhile isDecimalDigit)).1 ++ rest').head?,
          isDecimalDigit c = false := by
        intro c hc
        cases hexp : (exponent (after.dropWhile isDecimalDigit)).1 with
        | nil =>
          rw [hexp] at hc
          exact hrest.isDecimalDigit_head c hc
        | cons mark tail =>
          rw [hexp] at hc
          obtain rfl := Option.some.inj hc
          rcases exponent_mark _ mark (by rw [hexp]; rfl) with rfl | rfl <;> decide
      have hspan := span_append (takeWhile_digits after) hend
      simp only [List.cons_append, List.append_assoc, fraction, hspan, if_neg hne,
        exponent_append_of_delimited _ hrest]
  · cases h

theorem fraction_eq_none_of_delimited {rest : List Char} (hrest : Delimited rest) :
    fraction rest = none := by
  unfold fraction
  split
  · exact absurd rfl hrest.point_notMem_head
  · rfl

/-- **So does a numeral.** -/
theorem numeral_append_of_delimited {cs rest : List Char} {s : Segment}
    (h : numeral cs = some (s, rest)) {rest' : List Char} (hrest : Delimited rest') :
    numeral (s.chars ++ rest') = some (s, rest') := by
  unfold numeral at h
  simp only at h
  split at h
  · cases h
  rename_i hempty
  have hne := mt List.isEmpty_iff.mpr hempty
  have hdigits := takeWhile_digits (sign cs).2
  split at h
  · rename_i tail after hfraction
    obtain ⟨rfl, -⟩ := Prod.mk.inj (Option.some.inj h)
    have hend : ∀ c ∈ (tail ++ rest').head?, isDecimalDigit c = false := by
      obtain ⟨digits, mark, rfl, -⟩ := fraction_eq hfraction
      rintro c hc
      obtain rfl := Option.some.inj hc
      decide
    have hspan := span_append hdigits hend
    simp only [List.append_assoc, numeral, sign_append_digits cs hne hdigits, hspan, if_neg hempty,
      fraction_append_of_delimited hfraction hrest]
  · obtain ⟨rfl, -⟩ := Prod.mk.inj (Option.some.inj h)
    have hspan := span_append hdigits hrest.isDecimalDigit_head
    simp only [List.append_assoc, numeral, sign_append_digits cs hne hdigits, hspan, if_neg hempty,
      fraction_eq_none_of_delimited hrest]

/-! ## Tokens -/

/-- The segments that are tokens. -/
inductive Lexeme : Segment → Prop where
  | string {cs body rest : List Char} :
      closeString cs = some (body, rest) → Lexeme ⟨.token .string, '"' :: body⟩
  | numeral {s : Segment} {cs rest : List Char} : numeral cs = some (s, rest) → Lexeme s
  | word {c : Char} {cs : List Char} :
      isWordStart c = true → (∀ d ∈ cs, isWordRest d = true) → Lexeme ⟨.token .identifier, c :: cs⟩
  | symbol {c : Char} : isPunctuation c = true → Lexeme ⟨.token .symbol, [c]⟩

/-- The first segment of a text is a lexeme if it is a token. -/
theorem lexeme_of_first {c : Char} {cs : List Char} {kind : Token.Kind}
    (h : (first c cs).1.kind = .token kind) : Lexeme (first c cs).1 := by
  unfold first at h ⊢
  split at h
  · cases h
  rename_i hblank
  rw [if_neg hblank]
  split at h
  · cases h
  rename_i hline
  rw [if_neg hline]
  split at h
  · split at h <;> cases h
  rename_i hblock
  rw [if_neg hblock]
  split at h
  · rename_i hquote
    subst hquote
    split at h
    · rename_i hclose
      exact .string hclose
    · cases h
  rename_i hquote
  rw [if_neg hquote]
  split at h
  · rename_i hnumeral
    exact .numeral hnumeral
  split at h
  · rename_i hword
    rw [if_pos hword]
    exact .word hword fun d hd => List.mem_takeWhile_imp hd
  rename_i hword
  split at h
  · rename_i hsymbol
    rw [if_neg hword, if_pos hsymbol]
    exact .symbol hsymbol
  · cases h

theorem numeral_eq_none {c : Char} (hdigit : isDecimalDigit c = false) (hminus : c ≠ '-')
    (cs : List Char) : numeral (c :: cs) = none := by
  simp [numeral, sign, hminus, hdigit]

section

variable {c : Char} {cs : List Char} (hblank : isBlank c = false) (hslash : c ≠ '/')
  (hquote : c ≠ '"')

include hblank hslash hquote

/-- A numeral is read first wherever no blank, comment or string starts. -/
theorem first_of_numeral {read : Segment × List Char} (hnumeral : numeral (c :: cs) = some read) :
    first c cs = read := by
  simp [first, hblank, hslash, hquote, hnumeral]

/-- A word is read where no blank, comment, string or numeral starts. -/
theorem first_of_word (hnumeral : numeral (c :: cs) = none) (hstart : isWordStart c = true) :
    first c cs =
      (⟨.token .identifier, c :: cs.takeWhile isWordRest⟩, cs.dropWhile isWordRest) := by
  simp [first, hblank, hslash, hquote, hnumeral, hstart]

end

/-- A word ends before any character that cannot stand in it. -/
theorem first_word_append {c : Char} {cs rest : List Char} (hstart : isWordStart c = true)
    (hcs : ∀ d ∈ cs, isWordRest d = true) (hrest : ∀ d ∈ rest.head?, isWordRest d = false) :
    first c (cs ++ rest) = (⟨.token .identifier, c :: cs⟩, rest) := by
  have hdigit := Text.isDecimalDigit_eq_false_of_isWordStart hstart
  have hrestchar := isWordRest_of_isWordStart hstart
  have hblank : isBlank c = false := Bool.eq_false_iff.mpr fun hblank =>
    Text.not_visible_of_isBlank hblank (Text.visible_of_isWordRest hrestchar)
  have hne : ∀ d, isWordRest d = false → c ≠ d := by
    rintro d hd rfl
    simp [hrestchar] at hd
  have hspan := span_append hcs hrest
  rw [first_of_word hblank (hne _ (by decide)) (hne _ (by decide))
    (numeral_eq_none hdigit (hne _ (by decide)) _) hstart]
  simp only [hspan]

/-- **A token is read again before anything that does not continue it.** -/
theorem Lexeme.exists_first_append {s : Segment} (hs : Lexeme s) {rest : List Char}
    (hrest : Delimited rest) : ∃ c cs, s.chars = c :: cs ∧ first c (cs ++ rest) = (s, rest) := by
  cases hs with
  | @string cs body _ hclose =>
    refine ⟨'"', body, rfl, ?_⟩
    have hblank : isBlank '"' = false := by decide
    simp [first, hblank, closeString_append_of_some hclose]
  | numeral hnumeral =>
    obtain ⟨c, cs, hchars⟩ := List.exists_cons_of_ne_nil (numeral_append hnumeral).2
    refine ⟨c, cs, hchars, ?_⟩
    have hagain := numeral_append_of_delimited hnumeral hrest
    rw [hchars, List.cons_append] at hagain
    have hstart : isDecimalDigit c = true ∨ c = '-' := by
      by_contra hnot
      rw [not_or, Bool.not_eq_true] at hnot
      rw [numeral_eq_none hnot.1 hnot.2] at hagain
      cases hagain
    have hblank : isBlank c = false := by
      rcases hstart with hdigit | rfl
      · exact Bool.eq_false_iff.mpr fun hblank =>
          absurd hdigit (by simp [Text.isDecimalDigit_eq_false_of_isBlank hblank])
      · decide
    have hne : ∀ d, isDecimalDigit d = false → d ≠ '-' → c ≠ d := by
      rintro d hdigit hminus rfl
      simp [hdigit, hminus] at hstart
    exact first_of_numeral hblank (hne _ (by decide) (by decide)) (hne _ (by decide) (by decide))
      hagain
  | word hstart hcs => exact ⟨_, _, rfl, first_word_append hstart hcs hrest.isWordRest_head⟩
  | @symbol c hsymbol =>
    refine ⟨c, [], rfl, ?_⟩
    simp only [isPunctuation, Bool.or_eq_true, decide_eq_true_eq] at hsymbol
    rcases hsymbol with (((rfl | rfl) | rfl) | rfl) | rfl <;> rfl

end Segment

end WireSchema
