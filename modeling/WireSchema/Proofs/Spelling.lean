import Mathlib.Algebra.Group.Int.Defs
import WireSchema.Declaration
import WireSchema.Decimal.Numeral
import WireSchema.Proofs.Lexical

/-!
# The spelling of values

Which texts stand for which integers, numbers, strings and literals, said without a reader. Integers
and numbers are read exactly when they are spelled so (`readInteger?_eq_some_iff`,
`read?_eq_some_iff`), and a token stands for at most one literal (`SpellsLiteral.unique`).
-/

namespace WireSchema

open Text (isDecimalDigit)

namespace Grammar

/-! ## Spellings -/

/-- ASCII digits, at least one. -/
def Digits (chars : List Char) : Prop :=
  chars ≠ [] ∧ ∀ c ∈ chars, c.isDigit = true

/-- A text spells an integer of 128 bits: ASCII digits, with a minus sign in front if it is
negative. -/
def SpellsInteger (text : String) (value : Int) : Prop :=
  ∃ digits : List Char, Digits digits ∧
    (text.toList = digits ∧ value = Decimal.digitsValue digits ∨
      text.toList = '-' :: digits ∧ value = -Decimal.digitsValue digits) ∧
    -2 ^ 127 ≤ value ∧ value ≤ 2 ^ 127 - 1

/-- What follows the digits of a number spells an exponent: nothing, or a mark, an optional sign and
digits. -/
inductive SpellsExponent : List Char → Int → Prop where
  | absent : SpellsExponent [] 0
  | unsigned {mark : Char} {digits : List Char} : mark = 'e' ∨ mark = 'E' → Digits digits →
    SpellsExponent (mark :: digits) (Decimal.digitsValue digits)
  | plus {mark : Char} {digits : List Char} : mark = 'e' ∨ mark = 'E' → Digits digits →
    SpellsExponent (mark :: '+' :: digits) (Decimal.digitsValue digits)
  | minus {mark : Char} {digits : List Char} : mark = 'e' ∨ mark = 'E' → Digits digits →
    SpellsExponent (mark :: '-' :: digits) (-Decimal.digitsValue digits)

/-- The parts of a number spell a double: their digits are ASCII digits, and the double is the one
nearest to the decimal. -/
def PartsSpell {chars : List Char} (p : NumberParts chars) (value : Binary64) : Prop :=
  Digits p.whole ∧ Digits p.fraction ∧ ∃ exponent, SpellsExponent p.tail exponent ∧
    value = .ofParts p.negative (Binary64.roundScientific
      (Decimal.digitsValue (p.whole ++ p.fraction)) (exponent - p.fraction.length))

/-- A text spells a number. -/
def SpellsNumber (text : String) (value : Binary64) : Prop :=
  ∃ p : NumberParts text.toList, PartsSpell p value

/-- The escapes of a string: the letter after the backslash, and what it stands for. -/
def escapes : List (Char × Char) :=
  [('"', '"'), ('\\', '\\'), ('n', '\n'), ('t', '\t'), ('r', '\r')]

/-- The body of a string stands for a text. -/
inductive Unescapes : List Char → List Char → Prop where
  | nil : Unescapes [] []
  | plain {c : Char} {cs ds : List Char} : c ≠ '\\' → Unescapes cs ds →
    Unescapes (c :: cs) (c :: ds)
  | escape {c d : Char} {cs ds : List Char} :
    (c, d) ∈ escapes → Unescapes cs ds → Unescapes ('\\' :: c :: cs) (d :: ds)

/-- A token is a literal with a value. -/
inductive SpellsLiteral : Token → Literal → Prop where
  | integer {t : Token} {value : Int} :
    t.kind = .integer → SpellsInteger t.text value → SpellsLiteral t (.integer value)
  | number {t : Token} {value : Binary64} :
    t.kind = .number → SpellsNumber t.text value → SpellsLiteral t (.number value)
  | string {t : Token} {body value : List Char} :
    t.kind = .string → t.text.toList = '"' :: (body ++ ['"']) → Unescapes body value →
      SpellsLiteral t (.string (String.ofList value))
  | bool {t : Token} {value : Bool} :
    t.kind = .identifier → t.text = (if value then "true" else "false") →
      SpellsLiteral t (.bool value)

/-! ## Reading integers -/

/-- Digits are read as their value. -/
theorem readDigits?_eq_some_iff {digits : List Char} {n : Nat} :
    Decimal.readDigits? digits = some n ↔ Digits digits ∧ Decimal.digitsValue digits = n := by
  have htest : (!digits.isEmpty && digits.all Char.isDigit) = true ↔ Digits digits := by
    rw [Digits, Bool.and_eq_true, Bool.not_eq_true', List.isEmpty_eq_false_iff, List.all_eq_true]
  unfold Decimal.readDigits?
  by_cases h : Digits digits
  · rw [if_pos (htest.mpr h), Option.some.injEq]
    exact ⟨fun hn => ⟨h, hn⟩, fun hn => hn.2⟩
  · rw [if_neg (mt htest.mp h)]
    exact ⟨nofun, fun hn => absurd hn.1 h⟩

theorem readSign_minus (rest : List Char) : Decimal.readSign ('-' :: rest) = (true, rest) :=
  rfl

theorem readSign_of_head {chars : List Char} (hplus : '+' ∉ chars.head?)
    (hminus : '-' ∉ chars.head?) : Decimal.readSign chars = (false, chars) := by
  unfold Decimal.readSign
  split
  · exact absurd rfl hminus
  · exact absurd rfl hplus
  · rfl

/-- What is read once the sign has been split off. -/
theorem readInteger?_eq_some_iff_of_readSign {text : String} {negative : Bool}
    {digits : List Char} (hsign : Decimal.readSign text.toList = (negative, digits)) {value : Int} :
    Decimal.readInteger? text = some value ↔
      Digits digits ∧ value = Decimal.applySign negative (Decimal.digitsValue digits) ∧
        -2 ^ 127 ≤ value ∧ value ≤ 2 ^ 127 - 1 := by
  have hleast : Decimal.leastInteger = -2 ^ 127 := by decide
  have hgreatest : Decimal.greatestInteger = 2 ^ 127 - 1 := by decide
  simp only [Decimal.readInteger?, hsign, hleast, hgreatest]
  cases hdigits : Decimal.readDigits? digits with
  | none =>
    refine ⟨nofun, fun h => ?_⟩
    rw [readDigits?_eq_some_iff.mpr ⟨h.1, rfl⟩] at hdigits
    cases hdigits
  | some n =>
    obtain ⟨hd, rfl⟩ := readDigits?_eq_some_iff.mp hdigits
    simp only [Option.ite_none_right_eq_some, Option.some.injEq]
    refine ⟨?_, ?_⟩
    · rintro ⟨hrange, rfl⟩
      exact ⟨hd, rfl, hrange⟩
    · rintro ⟨-, rfl, hrange⟩
      exact ⟨hrange, rfl⟩

/-- **An integer without a plus sign** is read exactly if it spells an integer of 128 bits. -/
theorem readInteger?_eq_some_iff {text : String} (hplus : '+' ∉ text.toList) {value : Int} :
    Decimal.readInteger? text = some value ↔ SpellsInteger text value := by
  unfold SpellsInteger
  by_cases hminus : ∃ digits, text.toList = '-' :: digits
  · obtain ⟨digits, htext⟩ := hminus
    have hsign : Decimal.readSign text.toList = (true, digits) := by rw [htext, readSign_minus]
    rw [readInteger?_eq_some_iff_of_readSign hsign, htext]
    refine ⟨?_, ?_⟩
    · rintro ⟨hd, hvalue, hrange⟩
      exact ⟨digits, hd, .inr ⟨rfl, hvalue⟩, hrange⟩
    · rintro ⟨ds, hd, ⟨rfl, -⟩ | ⟨heq, hvalue⟩, hrange⟩
      · exact absurd (hd.2 '-' List.mem_cons_self) (by decide)
      · obtain rfl := (List.cons.inj heq).2
        exact ⟨hd, hvalue, hrange⟩
  · have hsign : Decimal.readSign text.toList = (false, text.toList) :=
      readSign_of_head (fun h => hplus (List.mem_of_mem_head? h))
        fun h => hminus (List.head?_eq_some_iff.mp h)
    rw [readInteger?_eq_some_iff_of_readSign hsign]
    refine ⟨?_, ?_⟩
    · rintro ⟨hd, hvalue, hrange⟩
      exact ⟨text.toList, hd, .inl ⟨rfl, hvalue⟩, hrange⟩
    · rintro ⟨ds, hd, ⟨rfl, hvalue⟩ | ⟨heq, -⟩, hrange⟩
      · exact ⟨hd, hvalue, hrange⟩
      · exact absurd ⟨ds, heq⟩ hminus

/-! ## Reading numbers -/

/-- An exponent is read as it is spelled. -/
theorem readExponent?_eq_some_iff {chars : List Char} {exponent : Int} :
    Decimal.readExponent? chars = some exponent ↔ SpellsExponent chars exponent := by
  cases chars with
  | nil =>
    refine ⟨?_, ?_⟩
    · rintro ⟨⟩
      exact .absent
    · rintro ⟨⟩
      rfl
  | cons mark rest =>
    have hmark : (mark = 'e' || mark = 'E') = true ↔ mark = 'e' ∨ mark = 'E' := by simp
    simp only [Decimal.readExponent?, hmark, Option.ite_none_right_eq_some, Option.map_eq_some_iff,
      readDigits?_eq_some_iff]
    refine ⟨?_, ?_⟩
    · rintro ⟨hmark, _, ⟨hd, rfl⟩, rfl⟩
      revert hd
      unfold Decimal.readSign
      split
      · exact fun hd => .minus hmark hd
      · exact fun hd => .plus hmark hd
      · exact fun hd => .unsigned hmark hd
    · intro h
      cases h with
      | unsigned hmark hd =>
        have hsign : Decimal.readSign rest = (false, rest) :=
          readSign_of_head
            (fun h => absurd (hd.2 _ (List.mem_of_mem_head? h)) (by decide))
            (fun h => absurd (hd.2 _ (List.mem_of_mem_head? h)) (by decide))
        rw [hsign]
        exact ⟨hmark, _, ⟨hd, rfl⟩, rfl⟩
      | plus hmark hd => exact ⟨hmark, _, ⟨hd, rfl⟩, rfl⟩
      | minus hmark hd => exact ⟨hmark, _, ⟨hd, rfl⟩, rfl⟩

theorem ne_of_isDecimalDigit {c d : Char} (hc : isDecimalDigit c = true)
    (hd : isDecimalDigit d = false) : c ≠ d := by
  rintro rfl
  rw [hc] at hd
  cases hd

/-- Digits that are not all ASCII digits stop the search for ASCII digits at one that is neither a
point nor an exponent mark. -/
theorem readExponent?_dropWhile_eq_none {digits : List Char} (rest : List Char)
    (hdigits : ∀ c ∈ digits, isDecimalDigit c = true) (h : ¬ ∀ c ∈ digits, c.isDigit = true) :
    ∃ c r, (digits ++ rest).dropWhile Char.isDigit = c :: r ∧ c ≠ '.' ∧
      Decimal.readExponent? (c :: r) = none := by
  rw [List.dropWhile_append]
  cases hdrop : digits.dropWhile Char.isDigit with
  | nil => exact absurd (List.dropWhile_eq_nil_iff.mp hdrop) h
  | cons c r =>
    have hc := hdigits c (List.dropWhile_subset _ (hdrop ▸ List.mem_cons_self))
    refine ⟨c, r ++ rest, rfl, ne_of_isDecimalDigit hc (by decide), if_neg ?_⟩
    have he : c ≠ 'e' := ne_of_isDecimalDigit hc (by decide)
    have hE : c ≠ 'E' := ne_of_isDecimalDigit hc (by decide)
    simp [he, hE]

end Grammar

namespace NumberParts

open Grammar

variable {chars : List Char} (p : NumberParts chars)

/-- The decimal after the sign. -/
def unsigned : List Char :=
  p.whole ++ '.' :: (p.fraction ++ p.tail)

theorem takeWhile_tail : p.tail.takeWhile Char.isDigit = [] := by
  have hmark := p.tail_mark
  cases htail : p.tail with
  | nil => rfl
  | cons c r =>
    rcases hmark c (by rw [htail]; rfl) with rfl | rfl <;> rfl

theorem dropWhile_tail : p.tail.dropWhile Char.isDigit = p.tail := by
  rw [← List.nil_append (p.tail.dropWhile Char.isDigit), ← p.takeWhile_tail,
    List.takeWhile_append_dropWhile]

/-- **A decimal is read as it is spelled**: its digits, and where the point stands. -/
theorem readDecimal?_unsigned_eq_some_iff {coefficient : Nat} {exponent : Int} :
    Decimal.readDecimal? p.unsigned = some (coefficient, exponent) ↔
      Digits p.whole ∧ Digits p.fraction ∧ ∃ x, SpellsExponent p.tail x ∧
        Decimal.digitsValue (p.whole ++ p.fraction) = coefficient ∧
          x - p.fraction.length = exponent := by
  unfold Decimal.readDecimal? unsigned
  -- the tokenizer knows decimal digits of other scripts, the reader only those of ASCII
  by_cases hwhole : ∀ c ∈ p.whole, c.isDigit = true
  · have hpoint : ¬ '.'.isDigit = true := by decide
    simp only [List.takeWhile_append_of_pos hwhole, List.dropWhile_append_of_pos hwhole,
      List.takeWhile_cons_of_neg hpoint, List.dropWhile_cons_of_neg hpoint, List.append_nil]
    by_cases hfraction : ∀ c ∈ p.fraction, c.isDigit = true
    · have hdigits : Digits (p.whole ++ p.fraction) :=
        ⟨List.append_ne_nil_of_left_ne_nil p.whole_ne _,
          List.forall_mem_append.mpr ⟨hwhole, hfraction⟩⟩
      simp only [List.takeWhile_append_of_pos hfraction, List.dropWhile_append_of_pos hfraction,
        p.takeWhile_tail, p.dropWhile_tail, List.append_nil,
        readDigits?_eq_some_iff.mpr ⟨hdigits, rfl⟩]
      cases hx : Decimal.readExponent? p.tail with
      | none =>
        refine ⟨nofun, ?_⟩
        rintro ⟨-, -, x, hx', -⟩
        rw [readExponent?_eq_some_iff.mpr hx'] at hx
        cases hx
      | some x =>
        simp only [Option.some.injEq, Prod.mk.injEq]
        refine ⟨fun h => ?_, ?_⟩
        · exact ⟨⟨p.whole_ne, hwhole⟩, ⟨p.fraction_ne, hfraction⟩, x,
            readExponent?_eq_some_iff.mp hx, h⟩
        · rintro ⟨-, -, x', hx', h⟩
          obtain rfl := Option.some.inj (hx.symm.trans (readExponent?_eq_some_iff.mpr hx'))
          exact h
    · obtain ⟨c, r, hdrop, -, hnone⟩ :=
        readExponent?_dropWhile_eq_none p.tail p.fraction_digits hfraction
      rw [hdrop, hnone]
      refine ⟨?_, fun h => absurd h.2.1.2 hfraction⟩
      cases Decimal.readDigits? (p.whole ++ (p.fraction ++ p.tail).takeWhile Char.isDigit) <;> nofun
  · obtain ⟨c, r, hdrop, hc, hnone⟩ :=
      readExponent?_dropWhile_eq_none ('.' :: (p.fraction ++ p.tail)) p.whole_digits hwhole
    refine ⟨fun h => ?_, fun h => absurd h.1.2 hwhole⟩
    simp only [hdrop] at h
    split at h
    · rename_i hexponent
      split at hexponent
      · rename_i heq
        exact absurd (List.cons.inj heq).1 hc
      · rw [hnone] at hexponent
        cases hexponent
    · cases h

theorem readMagnitude?_unsigned :
    Decimal.readMagnitude? p.unsigned =
      (Decimal.readDecimal? p.unsigned).map fun d => Binary64.roundScientific d.1 d.2 := by
  -- a number token has a point, which the words for infinity and NaN have not
  have hpoint : ∀ word : String, '.' ∉ word.toList →
      String.ofList (p.unsigned.map Char.toLower) ≠ word := by
    rintro word hword rfl
    refine hword ?_
    rw [String.toList_ofList]
    exact List.mem_map.mpr ⟨'.', by simp [unsigned], by decide⟩
  unfold Decimal.readMagnitude?
  cases Decimal.readDecimal? p.unsigned with
  | some d => rfl
  | none =>
    have hinf := hpoint "inf" (by decide)
    have hinfinity := hpoint "infinity" (by decide)
    have hnan := hpoint "nan" (by decide)
    simp [hinf, hinfinity, hnan]

/-- The sign of a numeral is read first. -/
theorem readSign_chars : Decimal.readSign chars = (p.negative, p.unsigned) := by
  have hchars : chars = (if p.negative then ['-'] else []) ++ p.unsigned := p.chars_eq
  refine (congrArg Decimal.readSign hchars).trans ?_
  cases p.negative with
  | true => rfl
  | false =>
    obtain ⟨c, r, hwhole⟩ := List.exists_cons_of_ne_nil p.whole_ne
    have hc : isDecimalDigit c = true := p.whole_digits c (by rw [hwhole]; exact List.mem_cons_self)
    have hhead : p.unsigned.head? = some c := by rw [unsigned, hwhole]; rfl
    change Decimal.readSign p.unsigned = _
    refine readSign_of_head ?_ ?_ <;>
    · rw [hhead]
      rintro ⟨⟩
      exact absurd hc (by decide)

end NumberParts

namespace Grammar

/-- **A number is read** exactly if its parts spell it. -/
theorem read?_eq_some_iff_of_parts {text : String} (p : NumberParts text.toList)
    {value : Binary64} :
    Binary64.read? text = some value ↔ PartsSpell p value := by
  unfold Binary64.read? PartsSpell
  simp only [p.readSign_chars, p.readMagnitude?_unsigned, Option.map_map, Option.map_eq_some_iff,
    Prod.exists, p.readDecimal?_unsigned_eq_some_iff, Function.comp_apply]
  refine ⟨?_, ?_⟩
  · rintro ⟨_, _, ⟨hwhole, hfraction, x, hx, rfl, rfl⟩, rfl⟩
    exact ⟨hwhole, hfraction, x, hx, rfl⟩
  · rintro ⟨hwhole, hfraction, x, hx, rfl⟩
    exact ⟨_, _, ⟨hwhole, hfraction, x, hx, rfl, rfl⟩, rfl⟩

/-- **A number token is read** exactly if it spells a number. -/
theorem read?_eq_some_iff {text : String} (h : Nonempty (NumberParts text.toList))
    {value : Binary64} : Binary64.read? text = some value ↔ SpellsNumber text value := by
  obtain ⟨p⟩ := h
  refine ⟨fun hread => ⟨p, (read?_eq_some_iff_of_parts p).mp hread⟩, ?_⟩
  rintro ⟨p', hp'⟩
  exact (read?_eq_some_iff_of_parts p').mpr hp'

/-! ## A token stands for one literal -/

/-- A text spells one integer. -/
theorem SpellsInteger.unique {text : String} {v v' : Int} (h : SpellsInteger text v)
    (h' : SpellsInteger text v') : v = v' := by
  have hminus : ∀ {cs : List Char}, (∀ c ∈ '-' :: cs, c.isDigit = true) → False := fun hcs =>
    absurd (hcs '-' List.mem_cons_self) (by decide)
  obtain ⟨ds, hds, ⟨ht, rfl⟩ | ⟨ht, rfl⟩, -⟩ := h <;>
    obtain ⟨ds', hds', ⟨ht', rfl⟩ | ⟨ht', rfl⟩, -⟩ := h'
  · rw [ht.symm.trans ht']
  · exact (hminus (ht.symm.trans ht' ▸ hds.2)).elim
  · exact (hminus (ht'.symm.trans ht ▸ hds'.2)).elim
  · rw [(List.cons.inj (ht.symm.trans ht')).2]

/-- A text spells one number. -/
theorem SpellsNumber.unique {text : String} {v v' : Binary64} (h : SpellsNumber text v)
    (h' : SpellsNumber text v') : v = v' := by
  -- the parts of a text are not compared: both values are what is read
  have hv := (read?_eq_some_iff ⟨h.choose⟩).mpr h
  have hv' := (read?_eq_some_iff ⟨h'.choose⟩).mpr h'
  exact Option.some.inj (hv.symm.trans hv')

theorem escapes_unique {c d d' : Char} (h : (c, d) ∈ escapes) (h' : (c, d') ∈ escapes) :
    d = d' := by
  simp only [escapes, List.mem_cons, Prod.mk.injEq, List.not_mem_nil, or_false] at h h'
  grind

/-- An escaped text stands for one text. -/
theorem Unescapes.unique {cs ds ds' : List Char} (h : Unescapes cs ds) (h' : Unescapes cs ds') :
    ds = ds' := by
  induction h generalizing ds' with
  | nil =>
    cases h'
    rfl
  | plain hne _ ih =>
    cases h' with
    | plain _ h' => rw [ih h']
    | escape _ _ => exact absurd rfl hne
  | escape hmem _ ih =>
    cases h' with
    | plain hne _ => exact absurd rfl hne
    | escape hmem' h' => rw [escapes_unique hmem hmem', ih h']

/-- A token spells one literal. -/
theorem SpellsLiteral.unique {t : Token} {v v' : Literal} (h : SpellsLiteral t v)
    (h' : SpellsLiteral t v') : v = v' := by
  cases h with
  | integer hk hs =>
    cases h' with
    | integer _ hs' => rw [hs.unique hs']
    | number hk' | string hk' | bool hk' => simp [hk] at hk'
  | number hk hs =>
    cases h' with
    | number _ hs' => rw [hs.unique hs']
    | integer hk' | string hk' | bool hk' => simp [hk] at hk'
  | string hk ht hs =>
    cases h' with
    | string _ ht' hs' =>
      obtain rfl := List.append_cancel_right (List.cons.inj (ht.symm.trans ht')).2
      rw [hs.unique hs']
    | integer hk' | number hk' | bool hk' => simp [hk] at hk'
  | @bool value hk ht =>
    cases h' with
    | @bool value' _ ht' =>
      have htext := ht.symm.trans ht'
      revert htext
      cases value <;> cases value' <;> decide
    | integer hk' | number hk' | string hk' => simp [hk] at hk'

end Grammar

end WireSchema
