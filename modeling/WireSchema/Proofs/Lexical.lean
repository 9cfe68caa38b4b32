import Mathlib.Data.List.TakeWhile
import WireSchema.Token.Segment

/-!
# The spelling of tokens

What the tokens of a text look like, whatever the text (`ofText_lexical`): an identifier is a word,
an integer has no plus sign, a number has digits before and after its point, and a string is quoted.
The rest of the language is read from tokens alone, so this is all that it can rely on. The digits
may be of any script.
-/

namespace WireSchema

open Text (isBlank isDecimalDigit isWord isWordRest isWordStart)

/-- A sign, digits before and after a point, and a tail that is empty or starts with an exponent
mark. -/
structure NumberParts (chars : List Char) where
  negative : Bool
  whole : List Char
  fraction : List Char
  tail : List Char
  chars_eq : chars = (if negative then ['-'] else []) ++ (whole ++ '.' :: (fraction ++ tail))
  whole_ne : whole ≠ []
  fraction_ne : fraction ≠ []
  whole_digits : ∀ c ∈ whole, isDecimalDigit c = true
  fraction_digits : ∀ c ∈ fraction, isDecimalDigit c = true
  tail_mark : ∀ c ∈ tail.head?, c = 'e' ∨ c = 'E'

/-- What the spelling of a token of each kind looks like. -/
structure Token.Lexical (t : Token) : Prop where
  word : t.kind = .identifier → isWord t.text = true
  unsigned : t.kind = .integer → '+' ∉ t.text.toList
  parts : t.kind = .number → Nonempty (NumberParts t.text.toList)
  quoted : t.kind = .string → ∃ body, t.text.toList = '"' :: (body ++ ['"'])

namespace Segment

theorem closeString_quoted {cs body rest : List Char} (h : closeString cs = some (body, rest)) :
    ∃ inner, body = inner ++ ['"'] := by
  fun_induction closeString cs generalizing body rest with
  | case1 => cases h
  | case2 rest' =>
    obtain ⟨rfl, -⟩ := Prod.mk.inj (Option.some.inj h)
    exact ⟨[], rfl⟩
  | case3 => cases h
  | case4 => cases h
  | case5 => cases h
  | case6 c cs _ ih =>
    obtain ⟨⟨b, r⟩, hb, he⟩ := Option.map_eq_some_iff.mp h
    obtain ⟨rfl, -⟩ := Prod.mk.inj he
    obtain ⟨inner, rfl⟩ := ih hb
    exact ⟨'\\' :: c :: inner, rfl⟩
  | case7 c cs _ _ _ _ _ ih =>
    obtain ⟨⟨b, r⟩, hb, he⟩ := Option.map_eq_some_iff.mp h
    obtain ⟨rfl, -⟩ := Prod.mk.inj he
    obtain ⟨inner, rfl⟩ := ih hb
    exact ⟨c :: inner, rfl⟩

theorem plus_notMem_sign (cs : List Char) : '+' ∉ (sign cs).1 := by
  unfold sign
  split <;> simp

theorem plus_notMem_takeWhile (cs : List Char) : '+' ∉ cs.takeWhile isDecimalDigit := by
  intro h
  have hdigit : isDecimalDigit '+' = true := List.mem_takeWhile_imp h
  exact absurd hdigit (by decide)

theorem exists_sign_eq (cs : List Char) :
    ∃ negative : Bool, (sign cs).1 = if negative then ['-'] else [] := by
  unfold sign
  split
  · exact ⟨true, rfl⟩
  · exact ⟨false, rfl⟩

theorem exponent_mark (cs : List Char) : ∀ c ∈ (exponent cs).1.head?, c = 'e' ∨ c = 'E' := by
  intro c hc
  unfold exponent at hc
  split at hc
  · cases hc
  simp only at hc
  split at hc
  · rename_i h
    obtain rfl := Option.some.inj hc
    simpa using (Bool.and_eq_true_iff.mp h).1
  · cases hc

/-- What the search for a fraction finds. -/
theorem fraction_eq {cs tail rest : List Char} (h : fraction cs = some (tail, rest)) :
    ∃ digits mark, tail = '.' :: (digits ++ mark) ∧ digits ≠ [] ∧
      (∀ c ∈ digits, isDecimalDigit c = true) ∧ ∀ c ∈ mark.head?, c = 'e' ∨ c = 'E' := by
  unfold fraction at h
  split at h
  · rename_i after
    split at h
    · cases h
    · rename_i hne
      obtain ⟨rfl, -⟩ := Prod.mk.inj (Option.some.inj h)
      exact ⟨_, _, rfl, mt List.isEmpty_iff.mpr hne, fun c hc => List.mem_takeWhile_imp hc,
        exponent_mark _⟩
  · cases h

/-- A numeral is a number with its parts, or an integer without a plus sign. -/
theorem numeral_kind {cs rest : List Char} {s : Segment} (h : numeral cs = some (s, rest)) :
    s.kind = .token .number ∧ Nonempty (NumberParts s.chars) ∨
      s.kind = .token .integer ∧ '+' ∉ s.chars := by
  unfold numeral at h
  simp only at h
  split at h
  · cases h
  rename_i hne
  split at h
  · rename_i tail rest' hfraction
    obtain ⟨rfl, -⟩ := Prod.mk.inj (Option.some.inj h)
    obtain ⟨negative, hsign⟩ := exists_sign_eq cs
    obtain ⟨digits, mark, rfl, hdne, hdigits, hmark⟩ := fraction_eq hfraction
    refine .inl ⟨rfl, ⟨negative, _, digits, mark, ?_, mt List.isEmpty_iff.mpr hne, hdne,
      fun c hc => List.mem_takeWhile_imp hc, hdigits, hmark⟩⟩
    rw [hsign, List.append_assoc]
  · obtain ⟨rfl, -⟩ := Prod.mk.inj (Option.some.inj h)
    refine .inr ⟨rfl, fun hmem => ?_⟩
    rcases List.mem_append.mp hmem with hmem | hmem
    · exact plus_notMem_sign _ hmem
    · exact plus_notMem_takeWhile _ hmem

theorem isWord_takeWhile {c : Char} (h : isWordStart c = true) (cs : List Char) :
    isWord (String.ofList (c :: cs.takeWhile isWordRest)) = true := by
  simp only [isWord, String.toList_ofList, Text.isWordChars, h, Bool.true_and, List.all_eq_true]
  exact fun d hd => List.mem_takeWhile_imp hd

/-- **The first segment of a text**, if it is a token, is spelled as its kind requires. -/
theorem first_lexical {c : Char} {cs : List Char} {loc : Location} {t : Token}
    (h : token? (loc, (first c cs).1) = some t) : t.Lexical := by
  unfold first at h
  split at h
  · -- blanks
    cases h
  split at h
  · -- a comment to the end of the line
    cases h
  split at h
  · -- a comment with an end mark, or one that misses it
    split at h <;> cases h
  split at h
  · -- a string, or one that misses its closing quote
    rename_i hquote
    split at h
    · rename_i body rest hclose
      obtain rfl := Option.some.inj h
      obtain ⟨inner, rfl⟩ := closeString_quoted hclose
      exact ⟨nofun, nofun, nofun, fun _ => ⟨inner, by rw [hquote]; simp⟩⟩
    · cases h
  split at h
  · -- an integer or a number
    rename_i s rest hnum
    obtain ⟨kind, chars⟩ := s
    rcases numeral_kind hnum with ⟨rfl, hparts⟩ | ⟨rfl, hplus⟩
    · obtain rfl := Option.some.inj h
      exact ⟨nofun, nofun, fun _ => by simpa using hparts, nofun⟩
    · obtain rfl := Option.some.inj h
      exact ⟨nofun, fun _ => by simpa using hplus, nofun, nofun⟩
  split at h
  · -- a word
    rename_i hstart
    obtain rfl := Option.some.inj h
    exact ⟨fun _ => isWord_takeWhile hstart cs, nofun, nofun, nofun⟩
  split at h
  · -- a symbol, of which nothing is required
    obtain rfl := Option.some.inj h
    exact ⟨nofun, nofun, nofun, nofun⟩
  · cases h

/-- The tokens among the segments of a text, wherever the text starts. -/
theorem split_lexical (cs : List Char) (loc : Location) :
    ∀ t ∈ (locate loc (split cs)).filterMap token?, t.Lexical := by
  induction cs using split.induct generalizing loc with
  | case1 => simp [locate]
  | case2 c cs ih =>
    intro t ht
    rw [split_cons, locate, List.filterMap_cons] at ht
    cases htoken : token? (loc, (first c cs).1) with
    | none =>
      rw [htoken] at ht
      exact ih _ t ht
    | some u =>
      rw [htoken] at ht
      rcases List.mem_cons.mp ht with rfl | ht
      · exact first_lexical htoken
      · exact ih _ t ht

end Segment

/-- **The tokens of a text** are spelled as their kinds require. -/
theorem TokenStream.ofText_lexical {text : String} {stream : TokenStream}
    (h : TokenStream.ofText text = .ok stream) : ∀ t ∈ stream.tokens, t.Lexical := by
  unfold TokenStream.ofText at h
  simp only at h
  cases hbad :
    (Segment.locate .start (Segment.split text.toList)).filterMap Segment.diagnostic? with
  | nil =>
    rw [hbad] at h
    obtain rfl := Except.ok.inj h
    exact Segment.split_lexical _ _
  | cons d ds =>
    rw [hbad] at h
    cases h

end WireSchema
