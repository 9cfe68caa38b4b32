import WireSchema.Diagnostic
import WireSchema.Text.Blank
import WireSchema.Text.DecimalDigit
import WireSchema.Text.Word

/-!
# Segments

Schema text is cut into **segments**: runs of blank characters, comments, tokens, and bad pieces
that start no token. `Segment.split` cuts a whole text. Each step (`Segment.first`) takes at least
one character and loses none (`first_append`), so the segments of a text concatenate to it.
-/

namespace WireSchema

/-- What a segment of schema text is. -/
inductive Segment.Kind where
  | blank
  | comment
  | token (kind : Token.Kind)
  /-- a skipped piece and what is wrong with it -/
  | bad (fault : SyntaxFault)
  deriving DecidableEq, Repr

/-- A contiguous piece of schema text. -/
structure Segment where
  kind : Segment.Kind
  chars : List Char
  deriving DecidableEq, Repr

namespace Segment

open Text (isBlank isDecimalDigit isWordRest isWordStart)

/-- Is `c` a punctuation character of the schema language? -/
def isPunctuation (c : Char) : Bool :=
  c = '\x7b' || c = '\x7d' || c = ':' || c = ';' || c = '='

/-! ## Bracketed pieces

Each of these returns the piece and the text after it. -/

/-- The rest of a block comment: up to and with the first `*/`. -/
def closeComment : List Char → Option (List Char × List Char)
  | [] => none
  | '*' :: '/' :: rest => some (['*', '/'], rest)
  | c :: cs => (closeComment cs).map fun (body, rest) => (c :: body, rest)

/-- The rest of a string: up to and with the closing quote. A backslash takes the next character
with it, and a newline ends the search. -/
def closeString : List Char → Option (List Char × List Char)
  | [] => none
  | '"' :: rest => some (['"'], rest)
  | '\n' :: _ => none
  | '\\' :: [] => none
  | '\\' :: '\n' :: _ => none
  | '\\' :: c :: cs => (closeString cs).map fun (body, rest) => ('\\' :: c :: body, rest)
  | c :: cs => (closeString cs).map fun (body, rest) => (c :: body, rest)

/-! ## Numbers -/

/-- The sign of an exponent and the text after it. -/
def exponentSign (cs : List Char) : List Char × List Char :=
  match cs with
  | '+' :: rest => (['+'], rest)
  | '-' :: rest => (['-'], rest)
  | _ => ([], cs)

/-- An exponent mark with its digits, if the text starts with one. -/
def exponent (cs : List Char) : List Char × List Char :=
  match cs with
  | [] => ([], [])
  | mark :: rest =>
    let (sign, digits) := exponentSign rest
    if (mark = 'e' || mark = 'E') && !(digits.takeWhile isDecimalDigit).isEmpty then
      (mark :: sign ++ digits.takeWhile isDecimalDigit, digits.dropWhile isDecimalDigit)
    else ([], mark :: rest)

/-- A fraction and an optional exponent, if the text starts with one. -/
def fraction (cs : List Char) : Option (List Char × List Char) :=
  match cs with
  | '.' :: rest =>
    if (rest.takeWhile isDecimalDigit).isEmpty then none
    else
      let (tail, after) := exponent (rest.dropWhile isDecimalDigit)
      some ('.' :: rest.takeWhile isDecimalDigit ++ tail, after)
  | _ => none

/-- The sign and the text after it. -/
def sign (cs : List Char) : List Char × List Char :=
  match cs with
  | '-' :: rest => (['-'], rest)
  | _ => ([], cs)

/-- The number or integer at the start of a text: as many characters as possible. -/
def numeral (cs : List Char) : Option (Segment × List Char) :=
  let (minus, unsigned) := sign cs
  let whole := unsigned.takeWhile isDecimalDigit
  let after := unsigned.dropWhile isDecimalDigit
  if whole.isEmpty then none
  else
    match fraction after with
    | some (tail, rest) => some (⟨.token .number, minus ++ whole ++ tail⟩, rest)
    | none => some (⟨.token .integer, minus ++ whole⟩, after)

/-! ## One segment -/

/-- The segment at the start of `c :: cs` and the text after it. -/
def first (c : Char) (cs : List Char) : Segment × List Char :=
  if isBlank c then (⟨.blank, c :: cs.takeWhile isBlank⟩, cs.dropWhile isBlank)
  else if c = '/' && cs.head? = some '/' then
    (⟨.comment, c :: cs.takeWhile (· ≠ '\n')⟩, cs.dropWhile (· ≠ '\n'))
  else if c = '/' && cs.head? = some '*' then
    match closeComment cs.tail with
    | some (body, rest) => (⟨.comment, c :: '*' :: body⟩, rest)
    | none => (⟨.bad .unterminatedComment, c :: cs⟩, [])
  else if c = '"' then
    match closeString cs with
    | some (body, rest) => (⟨.token .string, c :: body⟩, rest)
    | none =>
      (⟨.bad .unterminatedString, c :: cs.takeWhile (· ≠ '\n')⟩, cs.dropWhile (· ≠ '\n'))
  else
    match numeral (c :: cs) with
    | some (segment, rest) => (segment, rest)
    | none =>
      if isWordStart c then
        (⟨.token .identifier, c :: cs.takeWhile isWordRest⟩, cs.dropWhile isWordRest)
      else if isPunctuation c then (⟨.token .symbol, [c]⟩, cs)
      else (⟨.bad (.invalidCharacter c), [c]⟩, cs)

/-- Closing a comment cuts the characters in two. -/
theorem closeComment_append {cs body rest : List Char} (h : closeComment cs = some (body, rest)) :
    body ++ rest = cs := by
  fun_induction closeComment cs generalizing body rest with
  | case1 => simp at h
  | case2 rest' => simp at h; simp [← h.1, ← h.2]
  | case3 c cs _ ih =>
    obtain ⟨⟨b, r⟩, hb, he⟩ := Option.map_eq_some_iff.1 h
    obtain ⟨rfl, rfl⟩ := Prod.mk.inj he
    simp [ih hb]

/-- Closing a string cuts the characters in two. -/
theorem closeString_append {cs body rest : List Char} (h : closeString cs = some (body, rest)) :
    body ++ rest = cs := by
  fun_induction closeString cs generalizing body rest with
  | case1 => simp at h
  | case2 rest' => simp at h; simp [← h.1, ← h.2]
  | case3 => simp at h
  | case4 => simp at h
  | case5 => simp at h
  | case6 c cs _ ih =>
    obtain ⟨⟨b, r⟩, hb, he⟩ := Option.map_eq_some_iff.1 h
    obtain ⟨rfl, rfl⟩ := Prod.mk.inj he
    simp [ih hb]
  | case7 c cs _ _ _ _ _ ih =>
    obtain ⟨⟨b, r⟩, hb, he⟩ := Option.map_eq_some_iff.1 h
    obtain ⟨rfl, rfl⟩ := Prod.mk.inj he
    simp [ih hb]

theorem exponentSign_append (cs : List Char) :
    (exponentSign cs).1 ++ (exponentSign cs).2 = cs := by
  unfold exponentSign
  split <;> simp

theorem exponent_append (cs : List Char) : (exponent cs).1 ++ (exponent cs).2 = cs := by
  unfold exponent
  split
  · rfl
  · rename_i mark rest
    simp only
    split
    · simp only [List.cons_append, List.append_assoc, List.takeWhile_append_dropWhile,
        exponentSign_append]
    · rfl

/-- Cutting off a fraction loses no character. -/
theorem fraction_append {cs body rest : List Char} (h : fraction cs = some (body, rest)) :
    body ++ rest = cs := by
  unfold fraction at h
  split at h
  · rename_i digits
    split at h
    · simp at h
    · simp only [Option.some.injEq, Prod.mk.injEq] at h
      obtain ⟨rfl, rfl⟩ := h
      simp [List.append_assoc, exponent_append, List.takeWhile_append_dropWhile]
  · simp at h

theorem sign_append (cs : List Char) : (sign cs).1 ++ (sign cs).2 = cs := by
  unfold sign
  split <;> simp

/-- Neither does cutting off a numeral, which has at least one. -/
theorem numeral_append {cs rest : List Char} {s : Segment} (h : numeral cs = some (s, rest)) :
    s.chars ++ rest = cs ∧ s.chars ≠ [] := by
  unfold numeral at h
  simp only at h
  split at h
  · simp at h
  · rename_i hw
    split at h
    · rename_i tail rest' hf
      simp only [Option.some.injEq, Prod.mk.injEq] at h
      obtain ⟨rfl, rfl⟩ := h
      refine ⟨?_, fun h => hw ?_⟩
      · simp only [List.append_assoc, fraction_append hf, List.takeWhile_append_dropWhile]
        exact sign_append cs
      · exact List.isEmpty_iff.2 (List.append_eq_nil_iff.1 (List.append_eq_nil_iff.1 h).1).2
    · simp only [Option.some.injEq, Prod.mk.injEq] at h
      obtain ⟨rfl, rfl⟩ := h
      refine ⟨?_, fun h => hw ?_⟩
      · simp only [List.append_assoc, List.takeWhile_append_dropWhile]
        exact sign_append cs
      · exact List.isEmpty_iff.2 (List.append_eq_nil_iff.1 h).2

/-- **No character is lost, and a segment is never empty.** -/
theorem first_append (c : Char) (cs : List Char) :
    (first c cs).1.chars ++ (first c cs).2 = c :: cs ∧ (first c cs).1.chars ≠ [] := by
  unfold first
  split
  · simp [List.takeWhile_append_dropWhile]
  split
  · simp [List.takeWhile_append_dropWhile]
  split
  · rename_i h
    simp only [Bool.and_eq_true, decide_eq_true_eq] at h
    obtain ⟨ys, rfl⟩ : ∃ ys, cs = '*' :: ys := by
      cases cs with
      | nil => simp at h
      | cons d ys => simp at h; exact ⟨ys, by rw [h.2]⟩
    simp only [List.tail_cons]
    split
    · rename_i hc
      simp [closeComment_append hc]
    · simp
  split
  · split
    · rename_i hc
      simp [closeString_append hc]
    · simp [List.takeWhile_append_dropWhile]
  split
  · rename_i hn
    exact numeral_append hn
  · split
    · simp [List.takeWhile_append_dropWhile]
    · split <;> simp

/-- Behind the first segment fewer characters are left. -/
theorem first_rest_length (c : Char) (cs : List Char) :
    (first c cs).2.length < (c :: cs).length := by
  have h := first_append c cs
  have hl := congrArg List.length h.1
  have hp := List.length_pos_iff.2 h.2
  simp only [List.length_append] at hl
  omega

/-! ## Whole texts -/

/-- The segments of a text. -/
def split : List Char → List Segment
  | [] => []
  | c :: cs => (first c cs).1 :: split (first c cs).2
termination_by cs => cs.length
decreasing_by exact first_rest_length c cs

@[simp] theorem split_nil : split [] = [] := by
  rw [split]

/-- Splitting cuts off one segment after the other. -/
theorem split_cons (c : Char) (cs : List Char) :
    split (c :: cs) = (first c cs).1 :: split (first c cs).2 := by
  rw [split]

/-- Segments with the location of their first character. -/
def locate (loc : Location) : List Segment → List (Location × Segment)
  | [] => []
  | s :: ss => (loc, s) :: locate (loc.advance s.chars) ss

/-- The location behind the last of the segments. -/
def finish (loc : Location) : List Segment → Location
  | [] => loc
  | s :: ss => finish (loc.advance s.chars) ss

/-- The token that a located segment is, if it is one. -/
def token? : Location × Segment → Option Token
  | (loc, ⟨.token kind, chars⟩) => some ⟨kind, String.ofList chars, loc⟩
  | _ => none

/-- The diagnostic that a located segment causes, if it is bad. -/
def diagnostic? : Location × Segment → Option Diagnostic
  | (loc, ⟨.bad fault, _⟩) => some ⟨.syntactic fault, loc⟩
  | _ => none

end Segment

/-- The tokens of schema text. A text with bad pieces has none: every bad piece is reported. -/
def TokenStream.ofText (text : String) : Except Report TokenStream :=
  let segments := Segment.split text.toList
  let located := Segment.locate .start segments
  Report.guard
    ⟨located.filterMap Segment.token?, Segment.finish .start segments⟩
    (located.filterMap Segment.diagnostic?)

end WireSchema
