import Mathlib.Data.List.Forall2
import Mathlib.Data.List.Infix
import WireSchema.Proofs.Layout

/-!
# How a text is cut into segments

The spelling of tokens, blanks and comments is a matter of their characters alone (`Spelled`). A
text is cut at these spellings from left to right: the next segment is the longest piece that is
spelled like one of them, and where there is none a bad piece is skipped (`Heads`). This fixes the
segments of every text (`Segmentation.unique`), and they are the ones that a run finds
(`segmentation_split`).

The tokens and the diagnostics of a text are its token segments and its bad segments, in order, each
at the location that the text before it determines (`TokenStream.ofText_segmentation`).
-/

namespace WireSchema

open Text (isBlank isDecimalDigit isWordChars isWordRest isWordStart)

namespace Segment

/-! ## Spellings -/

/-- Decimal digits of any script, at least one. -/
def DigitRun (chars : List Char) : Prop :=
  chars ≠ [] ∧ ∀ c ∈ chars, isDecimalDigit c = true

/-- What can stand between the quotes of a string: characters of one line, where a backslash takes
the next character with it. -/
inductive StringBody : List Char → Prop where
  | nil : StringBody []
  | plain {c : Char} {cs : List Char} :
    c ≠ '"' → c ≠ '\\' → c ≠ '\n' → StringBody cs → StringBody (c :: cs)
  | escape {c : Char} {cs : List Char} :
    c ≠ '\n' → StringBody cs → StringBody ('\\' :: c :: cs)

/-- What can stand behind the fraction of a number: nothing, or an exponent. -/
inductive ExponentPart : List Char → Prop where
  | absent : ExponentPart []
  | present {mark : Char} {sign digits : List Char} :
    mark = 'e' ∨ mark = 'E' → sign ∈ [[], ['+'], ['-']] → DigitRun digits →
      ExponentPart (mark :: (sign ++ digits))

/-- How blanks, comments and tokens are spelled. No spelling makes a piece bad. -/
inductive Spelled : Kind → List Char → Prop where
  | blank {chars : List Char} :
    chars ≠ [] → (∀ c ∈ chars, isBlank c = true) → Spelled .blank chars
  | line {body : List Char} : '\n' ∉ body → Spelled .comment ('/' :: '/' :: body)
  | block {body : List Char} :
    ¬ ['*', '/'] <:+: body → Spelled .comment ('/' :: '*' :: (body ++ ['*', '/']))
  | string {body : List Char} :
    StringBody body → Spelled (.token .string) ('"' :: (body ++ ['"']))
  | number {sign whole fraction tail : List Char} :
    sign ∈ [[], ['-']] → DigitRun whole → DigitRun fraction → ExponentPart tail →
      Spelled (.token .number) (sign ++ (whole ++ '.' :: (fraction ++ tail)))
  | integer {sign whole : List Char} :
    sign ∈ [[], ['-']] → DigitRun whole → Spelled (.token .integer) (sign ++ whole)
  | identifier {chars : List Char} :
    isWordChars chars = true → Spelled (.token .identifier) chars
  | symbol {c : Char} : isPunctuation c = true → Spelled (.token .symbol) [c]

/-- What is skipped of a text at which no spelling starts, and the text behind it: a string that is
not closed up to the end of its line, a comment that is not closed with everything behind it, and
otherwise one character. -/
inductive Skipped : SyntaxFault → List Char → List Char → Prop where
  | string {body rest : List Char} :
    '\n' ∉ body → (∀ c ∈ rest.head?, c = '\n') → Skipped .unterminatedString ('"' :: body) rest
  | comment {body : List Char} : Skipped .unterminatedComment ('/' :: '*' :: body) []
  | character {c : Char} {rest : List Char} :
    c ≠ '"' → ¬ (c = '/' ∧ rest.head? = some '*') → Skipped (.invalidCharacter c) [c] rest

/-- A segment stands at the start of a text, and `rest` is behind it. -/
inductive Heads : Segment → List Char → Prop where
  /-- the longest piece that is spelled like anything -/
  | spelled {kind : Kind} {chars rest : List Char} : Spelled kind chars →
    (∀ kind' chars' rest', chars' ++ rest' = chars ++ rest → Spelled kind' chars' →
      chars'.length ≤ chars.length) →
    Heads ⟨kind, chars⟩ rest
  /-- no piece is spelled like anything -/
  | skipped {fault : SyntaxFault} {chars rest : List Char} : Skipped fault chars rest →
    (∀ kind' chars' rest', chars' ++ rest' = chars ++ rest → ¬ Spelled kind' chars') →
    Heads ⟨.bad fault, chars⟩ rest

/-- The segments cover a text, none is empty, and each stands at the start of the text from there
on. -/
structure Segmentation (cs : List Char) (segments : List Segment) : Prop where
  covers : segments.flatMap chars = cs
  nonempty : ∀ s ∈ segments, s.chars ≠ []
  heads : ∀ before s after, segments = before ++ s :: after → Heads s (after.flatMap chars)

/-! ## What a run finds is spelled right -/

/-- A block comment ends at the first end mark. -/
theorem closeComment_spelled {cs body rest : List Char} (h : closeComment cs = some (body, rest)) :
    ∃ inner, body = inner ++ ['*', '/'] ∧ ¬ ['*', '/'] <:+: inner := by
  fun_induction closeComment cs generalizing body rest with
  | case1 => cases h
  | case2 rest' =>
    obtain ⟨rfl, -⟩ := Prod.mk.inj (Option.some.inj h)
    exact ⟨[], rfl, by decide⟩
  | case3 c cs hopen ih =>
    obtain ⟨⟨b, r⟩, hb, he⟩ := Option.map_eq_some_iff.mp h
    obtain ⟨rfl, -⟩ := Prod.mk.inj he
    obtain ⟨inner, rfl, hinner⟩ := ih hb
    refine ⟨c :: inner, rfl, fun hmark => ?_⟩
    rcases List.infix_cons_iff.mp hmark with ⟨tail, hstart⟩ | hlater
    · -- the mark would have been found at this character
      obtain ⟨rfl, hslash⟩ := List.cons.inj hstart
      have htext := closeComment_append hb
      rw [← hslash] at htext
      exact hopen _ rfl htext.symm
    · exact hinner hlater

/-- A string ends at the first quote that is not escaped. -/
theorem closeString_spelled {cs body rest : List Char} (h : closeString cs = some (body, rest)) :
    ∃ inner, body = inner ++ ['"'] ∧ StringBody inner := by
  fun_induction closeString cs generalizing body rest with
  | case1 | case3 | case4 | case5 => cases h
  | case2 rest' =>
    obtain ⟨rfl, -⟩ := Prod.mk.inj (Option.some.inj h)
    exact ⟨[], rfl, .nil⟩
  | case6 c cs hnewline ih =>
    obtain ⟨⟨b, r⟩, hb, he⟩ := Option.map_eq_some_iff.mp h
    obtain ⟨rfl, -⟩ := Prod.mk.inj he
    obtain ⟨inner, rfl, hinner⟩ := ih hb
    exact ⟨'\\' :: c :: inner, rfl, .escape (fun heq => hnewline heq) hinner⟩
  | case7 c cs hquote hnewline hend hescape hescaped ih =>
    obtain ⟨⟨b, r⟩, hb, he⟩ := Option.map_eq_some_iff.mp h
    obtain ⟨rfl, -⟩ := Prod.mk.inj he
    obtain ⟨inner, rfl, hinner⟩ := ih hb
    have hbackslash : c ≠ '\\' := by
      intro hc
      cases cs with
      | nil => exact hend hc rfl
      | cons d ds => exact hescaped d ds hc rfl
    exact ⟨c :: inner, rfl, .plain hquote hbackslash hnewline hinner⟩

/-- The digits at the front are a run of digits, if there are any. -/
theorem digitRun_takeWhile {cs : List Char} (h : ¬ (cs.takeWhile isDecimalDigit).isEmpty = true) :
    DigitRun (cs.takeWhile isDecimalDigit) :=
  ⟨mt List.isEmpty_iff.mpr h, takeWhile_digits cs⟩

theorem exponentSign_mem (cs : List Char) : (exponentSign cs).1 ∈ [[], ['+'], ['-']] := by
  unfold exponentSign
  split <;> simp

theorem sign_mem (cs : List Char) : (sign cs).1 ∈ [[], ['-']] := by
  unfold sign
  split <;> simp

/-- What is cut off as an exponent is one, or nothing. -/
theorem exponent_spelled (cs : List Char) : ExponentPart (exponent cs).1 := by
  unfold exponent
  split
  · exact .absent
  · rename_i mark rest
    simp only
    split
    · rename_i h
      obtain ⟨hmark, hdigits⟩ := Bool.and_eq_true_iff.mp h
      refine .present (by simpa using hmark) (exponentSign_mem rest) (digitRun_takeWhile ?_)
      simpa using hdigits
    · exact .absent

/-- What is cut off as a fraction has a point, digits and perhaps an exponent. -/
theorem fraction_spelled {cs body rest : List Char} (h : fraction cs = some (body, rest)) :
    ∃ digits tail, body = '.' :: (digits ++ tail) ∧ DigitRun digits ∧ ExponentPart tail := by
  unfold fraction at h
  split at h
  · split at h
    · cases h
    · rename_i hdigits
      obtain ⟨rfl, -⟩ := Prod.mk.inj (Option.some.inj h)
      exact ⟨_, _, rfl, digitRun_takeWhile hdigits, exponent_spelled _⟩
  · cases h

/-- What is cut off as a numeral is spelled like one. -/
theorem numeral_spelled {cs rest : List Char} {s : Segment} (h : numeral cs = some (s, rest)) :
    Spelled s.kind s.chars := by
  unfold numeral at h
  simp only at h
  split at h
  · cases h
  rename_i hwhole
  have hsign := sign_mem cs
  have hdigits := digitRun_takeWhile hwhole
  split at h
  · rename_i body after hfraction
    obtain ⟨rfl, -⟩ := Prod.mk.inj (Option.some.inj h)
    obtain ⟨digits, tail, rfl, hfractional, htail⟩ := fraction_spelled hfraction
    simp only [List.append_assoc]
    exact .number hsign hdigits hfractional htail
  · obtain ⟨rfl, -⟩ := Prod.mk.inj (Option.some.inj h)
    exact .integer hsign hdigits

theorem newline_notMem_takeWhile (cs : List Char) : '\n' ∉ cs.takeWhile (· ≠ '\n') := by
  intro h
  have hne := List.mem_takeWhile_imp h
  exact absurd rfl (of_decide_eq_true hne)

theorem head?_dropWhile_newline (cs : List Char) :
    ∀ c ∈ (cs.dropWhile (· ≠ '\n')).head?, c = '\n' := by
  intro c hc
  have hend := List.head?_dropWhile_not (· ≠ '\n') cs
  rw [Option.mem_def.mp hc] at hend
  simpa using hend

/-- **What a run finds** is spelled like its kind, or is what has to be skipped. -/
theorem first_sound (c : Char) (cs : List Char) :
    Spelled (first c cs).1.kind (first c cs).1.chars ∨
      ∃ fault, (first c cs).1.kind = .bad fault ∧
        Skipped fault (first c cs).1.chars (first c cs).2 := by
  -- the branches in the order in which they are tried
  unfold first
  split
  · rename_i hblank
    refine .inl (.blank (List.cons_ne_nil _ _) (List.forall_mem_cons.mpr ⟨hblank, ?_⟩))
    exact fun d hd => List.mem_takeWhile_imp hd
  split
  · rename_i hline
    obtain ⟨rfl, hslash⟩ : c = '/' ∧ cs.head? = some '/' := by simpa using hline
    obtain ⟨cs, rfl⟩ : ∃ tail, cs = '/' :: tail := List.head?_eq_some_iff.mp hslash
    refine .inl (.line ?_)
    exact newline_notMem_takeWhile cs
  split
  · rename_i hblock
    obtain ⟨rfl, hstar⟩ : c = '/' ∧ cs.head? = some '*' := by simpa using hblock
    obtain ⟨cs, rfl⟩ : ∃ tail, cs = '*' :: tail := List.head?_eq_some_iff.mp hstar
    simp only [List.tail_cons]
    split
    · rename_i hclose
      obtain ⟨inner, rfl, hinner⟩ := closeComment_spelled hclose
      exact .inl (.block hinner)
    · exact .inr ⟨_, rfl, .comment⟩
  rename_i hblock
  split
  · rename_i hquote
    subst hquote
    split
    · rename_i hclose
      obtain ⟨inner, rfl, hinner⟩ := closeString_spelled hclose
      exact .inl (.string hinner)
    · exact .inr ⟨_, rfl, .string (newline_notMem_takeWhile cs) (head?_dropWhile_newline cs)⟩
  rename_i hquote
  split
  · rename_i hnumeral
    exact .inl (numeral_spelled hnumeral)
  split
  · rename_i hstart
    refine .inl (.identifier ?_)
    simp only [isWordChars, hstart, Bool.true_and, List.all_eq_true]
    exact fun d hd => List.mem_takeWhile_imp hd
  split
  · rename_i hsymbol
    exact .inl (.symbol hsymbol)
  · refine .inr ⟨_, rfl, .character hquote ?_⟩
    simpa using hblock

/-! ## A run finds the longest spelling -/

/-- A segment is no bad piece, and at least as long as a spelling; of the same length only if it is
of the same kind. -/
structure Reaches (s : Segment) (kind : Kind) (chars : List Char) : Prop where
  good : ∀ fault, s.kind ≠ .bad fault
  length_le : chars.length ≤ s.chars.length
  kind_eq : chars.length = s.chars.length → s.kind = kind

/-- A segment reaches as far as itself. -/
theorem reaches_self {kind : Kind} {chars : List Char} (h : Spelled kind chars) :
    Reaches ⟨kind, chars⟩ kind chars := by
  refine ⟨fun fault heq => ?_, Nat.le_refl _, fun _ => rfl⟩
  obtain rfl : kind = .bad fault := heq
  cases h

/-- A run of one sort is part of the longest run of that sort. -/
theorem length_le_takeWhile {p : Char → Bool} {xs : List Char} (hxs : ∀ c ∈ xs, p c = true)
    (rest : List Char) : xs.length ≤ ((xs ++ rest).takeWhile p).length := by
  rw [List.takeWhile_append_of_pos hxs, List.length_append]
  exact Nat.le_add_right _ _

/-- A string with a well-formed body is closed by the quote behind it. -/
theorem closeString_of_stringBody {body : List Char} (h : StringBody body) (rest : List Char) :
    closeString (body ++ '"' :: rest) = some (body ++ ['"'], rest) := by
  induction h with
  | nil => rfl
  | @plain c cs hquote hbackslash hnewline _ ih =>
    rw [List.cons_append, closeString, ih]
    · rfl
    all_goals simp_all
  | @escape c cs hnewline _ ih =>
    rw [List.cons_append, List.cons_append, closeString, ih]
    · rfl
    · exact fun heq => hnewline heq

section

variable {digits : List Char} (h : DigitRun digits)

include h

theorem DigitRun.takeWhile_append_ne (rest : List Char) :
    ¬ ((digits ++ rest).takeWhile isDecimalDigit).isEmpty = true := by
  intro hempty
  have hle := length_le_takeWhile h.2 rest
  rw [List.isEmpty_iff.mp hempty] at hle
  exact h.1 (List.length_eq_zero_iff.mp (Nat.le_zero.mp hle))

theorem DigitRun.exists_cons : ∃ d ds, digits = d :: ds ∧ isDecimalDigit d = true := by
  obtain ⟨d, ds, rfl⟩ := List.exists_cons_of_ne_nil h.1
  exact ⟨d, ds, rfl, h.2 d List.mem_cons_self⟩

/-- A minus sign is cut off in front of digits. -/
theorem DigitRun.sign_append {minus : List Char} (hminus : minus ∈ [[], ['-']]) (rest : List Char) :
    sign (minus ++ (digits ++ rest)) = (minus, digits ++ rest) := by
  obtain ⟨d, ds, rfl, hd⟩ := h.exists_cons
  have hne : d ≠ '-' := Grammar.ne_of_isDecimalDigit hd (by decide)
  simp only [List.mem_cons, List.not_mem_nil, or_false] at hminus
  rcases hminus with rfl | rfl <;> simp [sign, hne]

/-- The sign of an exponent is cut off in front of its digits. -/
theorem DigitRun.exponentSign_append {sign : List Char} (hsign : sign ∈ [[], ['+'], ['-']])
    (rest : List Char) : exponentSign (sign ++ (digits ++ rest)) = (sign, digits ++ rest) := by
  obtain ⟨d, ds, rfl, hd⟩ := h.exists_cons
  have hplus : d ≠ '+' := Grammar.ne_of_isDecimalDigit hd (by decide)
  have hminus : d ≠ '-' := Grammar.ne_of_isDecimalDigit hd (by decide)
  simp only [List.mem_cons, List.not_mem_nil, or_false] at hsign
  rcases hsign with rfl | rfl | rfl <;> simp [exponentSign, hplus, hminus]

end

/-- An exponent at the front is cut off as a whole. -/
theorem length_le_exponent {tail : List Char} (h : ExponentPart tail) (rest : List Char) :
    tail.length ≤ (exponent (tail ++ rest)).1.length := by
  cases h with
  | absent => exact Nat.zero_le _
  | @present mark sign digits hmark hsign hdigits =>
    have hfound : ((mark = 'e' || mark = 'E') &&
        !((digits ++ rest).takeWhile isDecimalDigit).isEmpty) = true := by
      simpa [hmark] using hdigits.takeWhile_append_ne rest
    have hlength := length_le_takeWhile hdigits.2 rest
    rw [List.cons_append, List.append_assoc, exponent]
    simp only [hdigits.exponentSign_append hsign, if_pos hfound, List.length_cons,
      List.length_append, List.cons_append]
    omega

/-- A fraction at the front is cut off as a whole. -/
theorem fraction_reaches {digits tail : List Char} (hdigits : DigitRun digits)
    (htail : ExponentPart tail) (rest : List Char) :
    ∃ body after, fraction ('.' :: (digits ++ (tail ++ rest))) = some (body, after) ∧
      ('.' :: (digits ++ tail)).length ≤ body.length := by
  refine ⟨_, _, by rw [fraction, if_neg (hdigits.takeWhile_append_ne _)], ?_⟩
  cases htail with
  | absent =>
    have hlength := length_le_takeWhile hdigits.2 rest
    simp only [List.nil_append, List.append_nil, List.length_cons, List.length_append,
      List.cons_append]
    omega
  | @present mark sign ds hmark hsign hds =>
    -- the exponent mark ends the digits of the fraction
    have hpart := ExponentPart.present hmark hsign hds
    have hend : ∀ c ∈ (mark :: (sign ++ ds) ++ rest).head?, isDecimalDigit c = false := by
      rintro c hc
      obtain rfl := Option.some.inj hc
      rcases hmark with rfl | rfl <;> decide
    have hspan := span_append hdigits.2 hend
    have hlength := length_le_exponent hpart rest
    rw [hspan.1, hspan.2]
    simp only [List.length_cons, List.length_append, List.cons_append] at hlength ⊢
    omega

/-- **No number at the front is longer** than what is cut off. -/
theorem numeral_reaches_number {minus whole digits tail : List Char} (hminus : minus ∈ [[], ['-']])
    (hwhole : DigitRun whole) (hdigits : DigitRun digits) (htail : ExponentPart tail)
    (rest : List Char) :
    ∃ s after, numeral (minus ++ (whole ++ '.' :: (digits ++ tail)) ++ rest) = some (s, after) ∧
      Reaches s (.token .number) (minus ++ (whole ++ '.' :: (digits ++ tail))) := by
  obtain ⟨body, after, hfraction, hlength⟩ := fraction_reaches hdigits htail rest
  have hpoint : ∀ c ∈ ('.' :: (digits ++ (tail ++ rest))).head?, isDecimalDigit c = false := by
    rintro c hc
    obtain rfl := Option.some.inj hc
    decide
  have hspan := span_append hwhole.2 hpoint
  refine ⟨⟨.token .number, minus ++ whole ++ body⟩, after, ?_, by rintro _ ⟨⟩, ?_, fun _ => rfl⟩
  · rw [show minus ++ (whole ++ '.' :: (digits ++ tail)) ++ rest =
      minus ++ (whole ++ '.' :: (digits ++ (tail ++ rest))) by simp, numeral]
    simp only [hwhole.sign_append hminus, hspan, List.isEmpty_iff, hwhole.1, if_false, hfraction]
  · simp only [List.length_append] at hlength ⊢
    omega

/-- No integer at the front is longer either. -/
theorem numeral_reaches_integer {minus whole : List Char} (hminus : minus ∈ [[], ['-']])
    (hwhole : DigitRun whole) (rest : List Char) :
    ∃ s after, numeral (minus ++ whole ++ rest) = some (s, after) ∧
      Reaches s (.token .integer) (minus ++ whole) := by
  have hlength := length_le_takeWhile hwhole.2 rest
  have hsome := hwhole.takeWhile_append_ne rest
  rw [List.append_assoc, numeral]
  simp only [hwhole.sign_append hminus, if_neg hsome]
  cases hfraction : fraction ((whole ++ rest).dropWhile isDecimalDigit) with
  | none =>
    refine ⟨_, _, rfl, by rintro _ ⟨⟩, ?_, fun _ => rfl⟩
    simp only [List.length_append]
    omega
  | some found =>
    obtain ⟨body, after⟩ := found
    obtain ⟨digits, tail, rfl, -⟩ := fraction_spelled hfraction
    refine ⟨_, _, rfl, by rintro _ ⟨⟩, ?_, fun heq => ?_⟩
    · simp only [List.length_append, List.length_cons]
      omega
    · -- with a fraction behind them the digits are not all of it
      simp only [List.length_append, List.length_cons] at heq
      omega

/-- A numeral starts with a digit or a minus sign, so nothing else is tried before it. -/
theorem first_eq_of_numeral {c : Char} {cs : List Char} {read : Segment × List Char}
    (h : numeral (c :: cs) = some read) : first c cs = read := by
  have hstart : isDecimalDigit c = true ∨ c = '-' := by
    by_contra hnot
    rw [not_or, Bool.not_eq_true] at hnot
    rw [numeral_eq_none hnot.1 hnot.2] at h
    cases h
  have hblank : isBlank c = false := by
    rcases hstart with hdigit | rfl
    · refine Bool.eq_false_iff.mpr fun hblank => ?_
      rw [Text.isDecimalDigit_eq_false_of_isBlank hblank] at hdigit
      cases hdigit
    · decide
  have hne : ∀ d, isDecimalDigit d = false → d ≠ '-' → c ≠ d := by
    rintro d hdigit hminus rfl
    simp [hdigit, hminus] at hstart
  exact first_of_numeral hblank (hne _ (by decide) (by decide)) (hne _ (by decide) (by decide)) h

section

variable {chars rest : List Char} {c : Char} {cs : List Char} (heq : chars ++ rest = c :: cs)

include heq

/-- No run of blanks at the front is longer than the first segment. -/
theorem first_reaches_blank (hne : chars ≠ []) (hblank : ∀ c ∈ chars, isBlank c = true) :
    Reaches (first c cs).1 .blank chars := by
  obtain ⟨d, ds, rfl⟩ := List.exists_cons_of_ne_nil hne
  obtain ⟨rfl, rfl⟩ := List.cons.inj heq
  obtain ⟨hd, hds⟩ := List.forall_mem_cons.mp hblank
  rw [first, if_pos hd]
  refine ⟨?_, Nat.succ_le_succ (length_le_takeWhile hds rest), fun _ => rfl⟩
  rintro _ ⟨⟩

/-- No word at the front is longer than the first segment. -/
theorem first_reaches_identifier (hword : isWordChars chars = true) :
    Reaches (first c cs).1 (.token .identifier) chars := by
  cases chars with
  | nil => cases hword
  | cons d ds =>
    obtain ⟨rfl, rfl⟩ := List.cons.inj heq
    rw [isWordChars, Bool.and_eq_true, List.all_eq_true] at hword
    obtain ⟨hstart, hds⟩ := hword
    have hdigit := Text.isDecimalDigit_eq_false_of_isWordStart hstart
    have hrest := isWordRest_of_isWordStart hstart
    have hblank : isBlank d = false := Bool.eq_false_iff.mpr fun hblank =>
      Text.not_visible_of_isBlank hblank (Text.visible_of_isWordRest hrest)
    have hne : ∀ e, isWordRest e = false → d ≠ e := by
      rintro e he rfl
      rw [hrest] at he
      cases he
    rw [first_of_word hblank (hne _ (by decide)) (hne _ (by decide))
      (numeral_eq_none hdigit (hne _ (by decide)) _) hstart]
    refine ⟨?_, Nat.succ_le_succ (length_le_takeWhile hds rest), fun _ => rfl⟩
    rintro _ ⟨⟩

end

/-- No line comment at the front is longer than the first segment. -/
theorem first_reaches_line {body : List Char} (hbody : '\n' ∉ body) (rest : List Char) :
    Reaches (first '/' ('/' :: body ++ rest)).1 .comment ('/' :: '/' :: body) := by
  have hslash : isBlank '/' = false := by decide
  have hline : ∀ c ∈ '/' :: body, decide (c ≠ '\n') = true := by
    rintro c hc
    refine decide_eq_true ?_
    rintro rfl
    exact hbody ((List.mem_cons.mp hc).resolve_left (by decide))
  rw [first, if_neg (by simp [hslash]), if_pos (by rfl)]
  refine ⟨?_, Nat.succ_le_succ (length_le_takeWhile hline rest), fun _ => rfl⟩
  rintro _ ⟨⟩

/-- A closed comment is found as it is. -/
theorem first_block {body : List Char} (hbody : ¬ ['*', '/'] <:+: body) (rest : List Char) :
    first '/' ('*' :: (body ++ ['*', '/']) ++ rest) =
      (⟨.comment, '/' :: '*' :: (body ++ ['*', '/'])⟩, rest) := by
  have hslash : isBlank '/' = false := by decide
  simp [first, hslash, closeComment_append_end hbody]

/-- A closed string is found as it is. -/
theorem first_string {body : List Char} (hbody : StringBody body) (rest : List Char) :
    first '"' (body ++ ['"'] ++ rest) = (⟨.token .string, '"' :: (body ++ ['"'])⟩, rest) := by
  have hquote : isBlank '"' = false := by decide
  simp [first, hquote, closeString_of_stringBody hbody]

/-- A punctuation character is found as it is. -/
theorem first_symbol {c : Char} (h : isPunctuation c = true) (rest : List Char) :
    first c rest = (⟨.token .symbol, [c]⟩, rest) := by
  simp only [isPunctuation, Bool.or_eq_true, decide_eq_true_eq] at h
  rcases h with (((rfl | rfl) | rfl) | rfl) | rfl <;> rfl

/-- **A run finds the longest spelling**, and with it its kind. -/
theorem first_reaches {kind : Kind} {chars rest : List Char} (h : Spelled kind chars) {c : Char}
    {cs : List Char} (heq : chars ++ rest = c :: cs) : Reaches (first c cs).1 kind chars := by
  -- comments, strings and symbols are found as they are spelled; the others may go on behind it
  cases h with
  | blank hne hblank => exact first_reaches_blank heq hne hblank
  | line hbody =>
    obtain ⟨rfl, rfl⟩ := List.cons.inj heq
    exact first_reaches_line hbody rest
  | block hbody =>
    rw [List.cons_append] at heq
    obtain ⟨rfl, rfl⟩ := List.cons.inj heq
    rw [first_block hbody]
    exact reaches_self (.block hbody)
  | string hbody =>
    rw [List.cons_append] at heq
    obtain ⟨rfl, rfl⟩ := List.cons.inj heq
    rw [first_string hbody]
    exact reaches_self (.string hbody)
  | number hsign hwhole hfraction htail =>
    obtain ⟨s, after, hnumeral, hreaches⟩ :=
      numeral_reaches_number hsign hwhole hfraction htail rest
    rw [heq] at hnumeral
    rwa [first_eq_of_numeral hnumeral]
  | integer hsign hwhole =>
    obtain ⟨s, after, hnumeral, hreaches⟩ := numeral_reaches_integer hsign hwhole rest
    rw [heq] at hnumeral
    rwa [first_eq_of_numeral hnumeral]
  | identifier hword => exact first_reaches_identifier heq hword
  | symbol hsymbol =>
    obtain ⟨rfl, rfl⟩ := List.cons.inj heq
    rw [first_symbol hsymbol]
    exact reaches_self (.symbol hsymbol)

/-! ## The segments of a text -/

/-- **The first segment** is spelled by its kind and as long as possible. -/
theorem heads_first (c : Char) (cs : List Char) : Heads (first c cs).1 (first c cs).2 := by
  have htext := (first_append c cs).1
  rcases first_sound c cs with hspelled | ⟨fault, hkind, hskipped⟩
  · refine .spelled hspelled fun kind' chars' rest' heq hspelled' => ?_
    exact (first_reaches hspelled' (heq.trans htext)).length_le
  · have hheads : Heads ⟨.bad fault, (first c cs).1.chars⟩ (first c cs).2 := by
      refine .skipped hskipped fun kind' chars' rest' heq hspelled' => ?_
      exact (first_reaches hspelled' (heq.trans htext)).good fault hkind
    rwa [← hkind] at hheads

/-- What is skipped of a text is determined by the text. -/
theorem Skipped.unique {fault fault' : SyntaxFault} {chars chars' rest rest' : List Char}
    (h : Skipped fault chars rest) (h' : Skipped fault' chars' rest')
    (heq : chars ++ rest = chars' ++ rest') : fault = fault' ∧ chars = chars' := by
  cases h with
  | @string body _ hbody hrest =>
    cases h' with
    | @string body' _ hbody' hrest' =>
      -- both reach to the end of the line
      have hline : ∀ {body : List Char}, '\n' ∉ body → ∀ c ∈ body, decide (c ≠ '\n') = true := by
        rintro body hbody c hc
        refine decide_eq_true ?_
        rintro rfl
        exact hbody hc
      have hend : ∀ {rest : List Char}, (∀ c ∈ rest.head?, c = '\n') →
          ∀ c ∈ rest.head?, decide (c ≠ '\n') = false :=
        fun hrest c hc => decide_eq_false (not_not_intro (hrest c hc))
      have hspan := span_append (hline hbody) (hend hrest)
      have hspan' := span_append (hline hbody') (hend hrest')
      obtain ⟨-, heq⟩ := List.cons.inj heq
      refine ⟨rfl, congrArg ('"' :: ·) ?_⟩
      rw [← hspan.1, ← hspan'.1]
      exact congrArg _ heq
    | comment => exact absurd (List.cons.inj heq).1 (by decide)
    | character hquote => exact absurd (List.cons.inj heq).1.symm hquote
  | comment =>
    cases h' with
    | string => exact absurd (List.cons.inj heq).1 (by decide)
    | comment =>
      refine ⟨rfl, ?_⟩
      rwa [List.append_nil, List.append_nil] at heq
    | character _ hblock =>
      obtain ⟨rfl, htail⟩ := List.cons.inj heq
      exact absurd ⟨rfl, congrArg List.head? htail.symm⟩ hblock
  | character hquote hblock =>
    cases h' with
    | string => exact absurd (List.cons.inj heq).1 hquote
    | comment =>
      obtain ⟨rfl, htail⟩ := List.cons.inj heq
      exact absurd ⟨rfl, congrArg List.head? htail⟩ hblock
    | character =>
      obtain ⟨rfl, -⟩ := List.cons.inj heq
      exact ⟨rfl, rfl⟩

/-- **The segment at the start of a text is determined**: a run finds it. -/
theorem Heads.first_eq {s : Segment} {rest : List Char} (h : Heads s rest) {c : Char}
    {cs : List Char} (heq : s.chars ++ rest = c :: cs) : first c cs = (s, rest) := by
  obtain ⟨kind, chars⟩ := s
  have hsame : chars ++ rest = (first c cs).1.chars ++ (first c cs).2 :=
    heq.trans (first_append c cs).1.symm
  have hfound : chars = (first c cs).1.chars → kind = (first c cs).1.kind →
      first c cs = (⟨kind, chars⟩, rest) := by
    intro hchars hkind
    subst hchars hkind
    exact Prod.ext rfl (List.append_cancel_left hsame).symm
  cases h with
  | spelled hspelled hlongest =>
    obtain ⟨hgood, hle, hkind⟩ := first_reaches hspelled heq
    rcases first_sound c cs with hspelled' | ⟨fault, hbad, -⟩
    · have hge := hlongest _ _ _ hsame.symm hspelled'
      have hlength : chars.length = (first c cs).1.chars.length := Nat.le_antisymm hle hge
      exact hfound (List.append_inj hsame hlength).1 (hkind hlength).symm
    · exact absurd hbad (hgood fault)
  | skipped hskipped hnone =>
    rcases first_sound c cs with hspelled' | ⟨fault', hbad, hskipped'⟩
    · exact absurd hspelled' (hnone _ _ _ hsame.symm)
    · obtain ⟨rfl, hchars⟩ := hskipped.unique hskipped' hsame
      exact hfound hchars hbad.symm

/-- A segment may be put in front of a segmentation if it is the one that the characters begin
with. -/
theorem Segmentation.cons {s : Segment} {rest : List Char} {segments : List Segment}
    (hne : s.chars ≠ []) (hs : Heads s rest) (h : Segmentation rest segments) :
    Segmentation (s.chars ++ rest) (s :: segments) := by
  refine ⟨?_, List.forall_mem_cons.mpr ⟨hne, h.nonempty⟩, fun before s' after heq => ?_⟩
  · rw [List.flatMap_cons, h.covers]
  · cases before with
    | nil =>
      obtain ⟨rfl, rfl⟩ := List.cons.inj heq
      rwa [h.covers]
    | cons _ before => exact h.heads before s' after (List.cons.inj heq).2

/-- Behind its first segment a segmentation is one of what is left. -/
theorem Segmentation.tail {s : Segment} {cs : List Char} {segments : List Segment}
    (h : Segmentation cs (s :: segments)) :
    Heads s (segments.flatMap chars) ∧ Segmentation (segments.flatMap chars) segments := by
  refine ⟨h.heads [] s segments rfl, rfl, (List.forall_mem_cons.mp h.nonempty).2, ?_⟩
  rintro before s' after rfl
  exact h.heads (s :: before) s' after rfl

/-- **The segments that a run finds** are a segmentation of the text. -/
theorem segmentation_split (cs : List Char) : Segmentation cs (split cs) := by
  induction cs using split.induct with
  | case1 =>
    rw [split_nil]
    exact ⟨rfl, List.forall_mem_nil _, fun before s after h => absurd h (by simp)⟩
  | case2 c cs ih =>
    obtain ⟨htext, hne⟩ := first_append c cs
    have hcons := ih.cons hne (heads_first c cs)
    rwa [htext, ← split_cons] at hcons

/-- **A text has only one segmentation.** -/
theorem Segmentation.unique {cs : List Char} {segments : List Segment}
    (h : Segmentation cs segments) : segments = split cs := by
  induction segments generalizing cs with
  | nil =>
    obtain rfl := h.covers
    exact split_nil.symm
  | cons s segments ih =>
    obtain ⟨hheads, hrest⟩ := h.tail
    obtain ⟨c, chars, hchars⟩ := List.exists_cons_of_ne_nil (h.nonempty s List.mem_cons_self)
    have hcovers := h.covers
    rw [List.flatMap_cons, hchars, List.cons_append] at hcovers
    have hfirst : first c (chars ++ segments.flatMap Segment.chars) =
        (s, segments.flatMap Segment.chars) :=
      hheads.first_eq (by rw [hchars, List.cons_append])
    rw [← hcovers, split_cons, hfirst, ← ih hrest]

end Segment

/-! ## Locations -/

/-- The location behind a text: the lines are counted by the newlines in it, and the columns by the
characters since the last of them. -/
def Location.after (before : List Char) : Location :=
  ⟨1 + before.count '\n', 1 + (before.reverse.takeWhile (· ≠ '\n')).length⟩

/-- The characters since the last newline of a text. -/
theorem takeWhile_reverse_newline (head : List Char) {last : List Char} (h : '\n' ∉ last) :
    (head ++ '\n' :: last).reverse.takeWhile (· ≠ '\n') = last.reverse := by
  have hlast : ∀ c ∈ last.reverse, decide (c ≠ '\n') = true := by
    intro c hc
    refine decide_eq_true ?_
    rintro rfl
    exact h (List.mem_reverse.mp hc)
  rw [List.reverse_append, List.reverse_cons, List.append_assoc,
    List.takeWhile_append_of_pos hlast]
  simp

/-- A part with newlines gives the column by its last line. -/
theorem Location.advance_of_newline (loc : Location) (head : List Char) {last : List Char}
    (h : '\n' ∉ last) :
    loc.advance (head ++ '\n' :: last) =
      ⟨loc.line + (head ++ '\n' :: last).count '\n', last.length + 1⟩ := by
  have hcount : (head ++ '\n' :: last).count '\n' > 0 := List.count_pos_iff.mpr (by simp)
  have hlast : (Text.pieces '\n' (head ++ '\n' :: last)).getLast? = some last := by
    rw [Text.pieces_append_cons, Text.pieces_of_notMem h, List.getLast?_concat]
  simp only [advance, if_pos hcount, hlast]

/-- A part without newlines moves the column. -/
theorem Location.advance_of_notMem (loc : Location) {part : List Char} (h : '\n' ∉ part) :
    loc.advance part = ⟨loc.line, loc.column + part.length⟩ := by
  simp only [advance, List.count_eq_zero.mpr h, gt_iff_lt, Nat.lt_irrefl, if_false]

/-- **Moving on part by part** leads to the location behind the text. -/
theorem Location.advance_after (before part : List Char) :
    (Location.after before).advance part = .after (before ++ part) := by
  by_cases h : '\n' ∈ part
  · -- the part is cut at its last newline
    obtain ⟨tail, front, hreverse, hlast⟩ := List.eq_append_cons_of_mem (List.mem_reverse.mpr h)
    obtain rfl : part = front.reverse ++ '\n' :: tail.reverse := by
      have hpart := congrArg List.reverse hreverse
      simpa using hpart
    have hlast : '\n' ∉ tail.reverse := mt List.mem_reverse.mp hlast
    have hcolumn : ((before ++ (front.reverse ++ '\n' :: tail.reverse)).reverse.takeWhile
        (· ≠ '\n')).length = tail.reverse.length := by
      rw [← List.append_assoc, takeWhile_reverse_newline _ hlast, List.length_reverse]
    have hline : (before ++ (front.reverse ++ '\n' :: tail.reverse)).count '\n' =
        before.count '\n' + (front.reverse ++ '\n' :: tail.reverse).count '\n' :=
      List.count_append
    rw [advance_of_newline _ _ hlast, after, after, hcolumn, hline, Nat.add_assoc,
      Nat.add_comm _ 1]
  · have hpart : ∀ c ∈ part.reverse, decide (c ≠ '\n') = true := by
      intro c hc
      refine decide_eq_true ?_
      rintro rfl
      exact h (List.mem_reverse.mp hc)
    rw [advance_of_notMem _ h, after, after, List.reverse_append,
      List.takeWhile_append_of_pos hpart, List.count_append, List.count_eq_zero.mpr h,
      List.length_append, List.length_reverse, Nat.add_zero, Nat.add_comm part.length,
      ← Nat.add_assoc]

namespace Segment

/-- The segments of a text, each at the location behind all segments before it. -/
def placed (segments : List Segment) : List (Location × Segment) :=
  (segments.inits.zip segments).map fun p => (.after (p.1.flatMap chars), p.2)

/-- Segments are placed where the characters before them end. -/
theorem locate_after (before : List Char) (segments : List Segment) :
    locate (.after before) segments =
      (segments.inits.zip segments).map fun p => (.after (before ++ p.1.flatMap chars), p.2) := by
  induction segments generalizing before with
  | nil => rfl
  | cons s segments ih =>
    rw [locate, Location.advance_after, ih, List.inits_cons, List.zip_cons_cons, List.map_cons,
      List.zip_map_left, List.map_map]
    refine congr (congrArg List.cons ?_) (List.map_congr_left fun p _ => ?_)
    · rw [List.flatMap_nil, List.append_nil]
    · change _ = (Location.after (before ++ (s :: p.1).flatMap chars), p.2)
      rw [List.flatMap_cons, List.append_assoc]

/-- From the start, that is where they stand in the text. -/
theorem locate_start (segments : List Segment) : locate .start segments = placed segments :=
  locate_after [] segments

/-- **The location that a run ends at** is the one behind all segments. -/
theorem finish_after (before : List Char) (segments : List Segment) :
    finish (.after before) segments = .after (before ++ segments.flatMap chars) := by
  induction segments generalizing before with
  | nil => rw [finish, List.flatMap_nil, List.append_nil]
  | cons s segments ih =>
    rw [finish, Location.advance_after, ih, List.flatMap_cons, List.append_assoc]

/-! ## Tokens and diagnostics of segments -/

/-- Is a segment a token? -/
def isToken (s : Segment) : Bool :=
  match s.kind with
  | .token _ => true
  | _ => false

/-- Is a segment a bad piece? -/
def isBad (s : Segment) : Bool :=
  match s.kind with
  | .bad _ => true
  | _ => false

/-- The token is a segment of the same kind with the same characters, at its place. -/
structure TokenAt (t : Token) (place : Location × Segment) : Prop where
  kind : place.2.kind = .token t.kind
  text : t.text.toList = place.2.chars
  location : t.location = place.1

/-- The diagnostic says what is wrong with a bad segment, at its place. -/
structure DiagnosticAt (d : Diagnostic) (place : Location × Segment) : Prop where
  fault : ∃ fault, place.2.kind = .bad fault ∧ d.fault = .syntactic fault
  location : d.location = place.1

/-- Values that belong to the items of a selection, in order. -/
theorem forall₂_filter_iff {α β : Type} {f : α → Option β} {p : α → Bool} {R : β → α → Prop}
    (hp : ∀ a, p a = (f a).isSome) (hR : ∀ a b, R b a ↔ f a = some b) {as : List α}
    {bs : List β} : List.Forall₂ R bs (as.filter p) ↔ bs = as.filterMap f := by
  induction as generalizing bs with
  | nil => simp
  | cons a as ih =>
    cases hf : f a with
    | none =>
      rw [List.filter_cons_of_neg (by simp [hp, hf]), List.filterMap_cons_none hf]
      exact ih
    | some b =>
      rw [List.filter_cons_of_pos (by simp [hp, hf]), List.filterMap_cons_some hf]
      cases bs with
      | nil => simp
      | cons b' bs =>
        rw [List.forall₂_cons, ih, hR, hf, Option.some.injEq, List.cons.injEq, eq_comm]

/-- The token at a place has the kind, the text and the location of the segment there. -/
theorem tokenAt_iff (place : Location × Segment) (t : Token) :
    TokenAt t place ↔ token? place = some t := by
  obtain ⟨loc, kind, chars⟩ := place
  obtain ⟨tokenKind, text, location⟩ := t
  refine ⟨?_, fun h => ?_⟩
  · rintro ⟨hkind, htext, hlocation⟩
    obtain rfl : kind = .token tokenKind := hkind
    obtain rfl : location = loc := hlocation
    obtain rfl : text.toList = chars := htext
    exact congrArg some (by rw [String.ofList_toList])
  · cases kind with
    | token kind =>
      obtain ⟨rfl, rfl, rfl⟩ := Token.mk.inj (Option.some.inj h)
      exact ⟨rfl, String.toList_ofList, rfl⟩
    | _ => cases h

/-- The diagnostic at a place is about the segment there. -/
theorem diagnosticAt_iff (place : Location × Segment) (d : Diagnostic) :
    DiagnosticAt d place ↔ diagnostic? place = some d := by
  obtain ⟨loc, kind, chars⟩ := place
  obtain ⟨fault, location⟩ := d
  refine ⟨?_, fun h => ?_⟩
  · rintro ⟨⟨cause, hkind, hfault⟩, hlocation⟩
    obtain rfl : kind = .bad cause := hkind
    obtain rfl : fault = .syntactic cause := hfault
    obtain rfl : location = loc := hlocation
    rfl
  · cases kind with
    | bad cause =>
      obtain ⟨rfl, rfl⟩ := Diagnostic.mk.inj (Option.some.inj h)
      exact ⟨⟨cause, rfl, rfl⟩, rfl⟩
    | _ => cases h

/-- Tokens stand for the segments that are tokens, one by one and in their order. -/
theorem forall₂_tokenAt_iff {ts : List Token} {segments : List (Location × Segment)} :
    List.Forall₂ TokenAt ts (segments.filter (·.2.isToken)) ↔ ts = segments.filterMap token? := by
  refine forall₂_filter_iff (fun place => ?_) tokenAt_iff
  obtain ⟨loc, kind, chars⟩ := place
  cases kind <;> rfl

/-- Diagnostics stand for the bad segments, one by one and in their order. -/
theorem forall₂_diagnosticAt_iff {ds : List Diagnostic} {segments : List (Location × Segment)} :
    List.Forall₂ DiagnosticAt ds (segments.filter (·.2.isBad)) ↔
      ds = segments.filterMap diagnostic? := by
  refine forall₂_filter_iff (fun place => ?_) diagnosticAt_iff
  obtain ⟨loc, kind, chars⟩ := place
  cases kind <;> rfl

theorem map_snd_placed (segments : List Segment) : (placed segments).map Prod.snd = segments := by
  rw [← locate_start, map_snd_locate]

/-- There are no diagnostics exactly if no segment is bad. -/
theorem diagnostics_eq_nil_iff (segments : List Segment) :
    (placed segments).filterMap diagnostic? = [] ↔ ∀ s ∈ segments, s.isBad = false := by
  have hnone : List.Forall₂ DiagnosticAt [] ((placed segments).filter (·.2.isBad)) ↔ _ :=
    forall₂_diagnosticAt_iff
  rw [List.forall₂_nil_left_iff, List.filter_eq_nil_iff, eq_comm] at hnone
  rw [← hnone]
  refine ⟨fun h s hs => ?_, fun h p hp => ?_⟩
  · rw [← map_snd_placed segments] at hs
    obtain ⟨p, hp, rfl⟩ := List.mem_map.mp hs
    exact Bool.eq_false_iff.mpr (h p hp)
  · have hs : p.2 ∈ segments := map_snd_placed segments ▸ List.mem_map_of_mem hp
    exact Bool.eq_false_iff.mp (h p.2 hs)

end Segment

/-- **The tokens of a text with their exact places.** Every text has one segmentation. It has tokens
exactly if no segment is bad; they are then the token segments in order, each with its kind and its
characters, up to the end of the text. Otherwise the diagnostics are those of the bad segments in
order. Each token and each diagnostic is located by the text before its segment, and the end by the
whole text. -/
theorem TokenStream.ofText_segmentation (text : String) :
    ∃ segments, Segment.Segmentation text.toList segments ∧
      (∀ others, Segment.Segmentation text.toList others → others = segments) ∧
      (∀ stream, TokenStream.ofText text = .ok stream ↔
        (∀ s ∈ segments, s.isBad = false) ∧
          List.Forall₂ Segment.TokenAt stream.tokens
            ((Segment.placed segments).filter (·.2.isToken)) ∧
          stream.finish = .after text.toList) ∧
      ∀ report, TokenStream.ofText text = .error report ↔
        List.Forall₂ Segment.DiagnosticAt report.diagnostics
          ((Segment.placed segments).filter (·.2.isBad)) := by
  have hsegments := Segment.segmentation_split text.toList
  have hfinish : Segment.finish .start (Segment.split text.toList) = .after text.toList := by
    have h := Segment.finish_after [] (Segment.split text.toList)
    rwa [hsegments.covers] at h
  refine ⟨Segment.split text.toList, hsegments, fun _ h => h.unique, ?_⟩
  simp only [Segment.forall₂_tokenAt_iff, Segment.forall₂_diagnosticAt_iff,
    ← Segment.diagnostics_eq_nil_iff]
  rw [TokenStream.ofText, Segment.locate_start, hfinish]
  -- whether there is a bad segment decides which of the two results it is
  cases (Segment.placed (Segment.split text.toList)).filterMap Segment.diagnostic? with
  | nil =>
    refine ⟨fun stream => ⟨?_, ?_⟩, fun report => ⟨?_, fun h => absurd h (List.cons_ne_nil _ _)⟩⟩
    · intro h
      obtain rfl := Except.ok.inj h
      exact ⟨rfl, rfl, rfl⟩
    · rintro ⟨-, htokens, hend⟩
      obtain ⟨tokens, finish⟩ := stream
      exact congrArg Except.ok (congr (congrArg TokenStream.mk htokens.symm) hend.symm)
    · rintro ⟨⟩
  | cons d ds =>
    refine ⟨fun stream => ⟨?_, fun h => absurd h.1 (List.cons_ne_nil _ _)⟩, fun report => ⟨?_, ?_⟩⟩
    · rintro ⟨⟩
    · intro h
      obtain rfl := Except.error.inj h
      rfl
    · intro h
      obtain ⟨first, others⟩ := report
      obtain ⟨rfl, rfl⟩ := List.cons.inj h
      rfl

/-- Tokens behind comments, one of which has two lines. -/
def wrappedText : String :=
  "// top\nmessage /* two\n lines */ A"

/-- A string that is not closed on its line, a bad character and a comment that is not closed. -/
def openText : String :=
  "name \"é\nA # /* never"

theorem wrappedText_segmentation :
    TokenStream.ofText wrappedText =
        .ok ⟨[⟨.identifier, "message", ⟨2, 1⟩⟩, ⟨.identifier, "A", ⟨3, 11⟩⟩], ⟨3, 12⟩⟩ ∧
      TokenStream.ofText openText =
        .error ⟨⟨.syntactic .unterminatedString, ⟨1, 6⟩⟩,
          [⟨.syntactic (.invalidCharacter '#'), ⟨2, 3⟩⟩,
            ⟨.syntactic .unterminatedComment, ⟨2, 5⟩⟩]⟩ ∧
      (∃ segments, Segment.Segmentation wrappedText.toList segments ∧
        List.Forall₂ Segment.TokenAt
          [⟨.identifier, "message", ⟨2, 1⟩⟩, ⟨.identifier, "A", ⟨3, 11⟩⟩]
          ((Segment.placed segments).filter (·.2.isToken)) ∧
        Location.after wrappedText.toList = ⟨3, 12⟩) ∧
      ∃ segments, Segment.Segmentation openText.toList segments ∧
        List.Forall₂ Segment.DiagnosticAt
          [⟨.syntactic .unterminatedString, ⟨1, 6⟩⟩,
            ⟨.syntactic (.invalidCharacter '#'), ⟨2, 3⟩⟩,
            ⟨.syntactic .unterminatedComment, ⟨2, 5⟩⟩]
          ((Segment.placed segments).filter (·.2.isBad)) := by
  have hwrapped : TokenStream.ofText wrappedText =
      .ok ⟨[⟨.identifier, "message", ⟨2, 1⟩⟩, ⟨.identifier, "A", ⟨3, 11⟩⟩], ⟨3, 12⟩⟩ := by
    decide +kernel
  have hopen : TokenStream.ofText openText =
      .error ⟨⟨.syntactic .unterminatedString, ⟨1, 6⟩⟩,
        [⟨.syntactic (.invalidCharacter '#'), ⟨2, 3⟩⟩,
          ⟨.syntactic .unterminatedComment, ⟨2, 5⟩⟩]⟩ := by
    decide +kernel
  obtain ⟨segments, hsegments, -, hok, -⟩ := TokenStream.ofText_segmentation wrappedText
  obtain ⟨segments', hsegments', -, -, herror⟩ := TokenStream.ofText_segmentation openText
  obtain ⟨-, htokens, hfinish⟩ := (hok _).mp hwrapped
  exact ⟨hwrapped, hopen, ⟨segments, hsegments, htokens, hfinish.symm⟩,
    segments', hsegments', (herror _).mp hopen⟩

end WireSchema
