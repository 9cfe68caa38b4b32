import Mathlib
import WireSchema.Decimal.Numeral
import WireSchema.Proofs.NumberText
import WireSchema.Proofs.RoundingIntervals

/-!
# Doubles in JSON

What `Layout.json` writes for a double has one of three forms (`Form`), each of which is read as the
decimal that was written (`Form.reads`). The decimal lies in the rounding interval of the double, so
two doubles that are written alike are the same (`json_write_injective`). Every form has a point or
an exponent, so that no double is written like an integer (`exists_mark_json_write`).
-/

namespace WireSchema

/-- A double is its sign and its magnitude. -/
theorem Binary64.eq_of_negative_of_magnitude {x y : Binary64} (hsign : x.negative = y.negative)
    (hmagnitude : x.magnitude = y.magnitude) : x = y := by
  have hbits : x.bits = y.bits := by
    rw [negative, negative, decide_eq_decide] at hsign
    rw [magnitude, magnitude] at hmagnitude
    have hx := x.bits.toNat_lt
    have hy := y.bits.toNat_lt
    have hpow : Nat.pow 2 63 = 9223372036854775808 := rfl
    rw [hpow] at hsign hmagnitude
    apply UInt64.toNat_inj.mp
    omega
  cases x
  exact congrArg Binary64.mk hbits

namespace Decimal

/-! ## Values of digits -/

theorem digitsValue_append_zeros (digits : List Char) (n : Nat) :
    digitsValue (digits ++ List.replicate n '0') = 10 ^ n * digitsValue digits :=
  (Nat.ofDigitChars_append 0).trans Nat.ofDigitChars_replicate_zero

theorem digitsValue_zeros_append (n : Nat) (digits : List Char) :
    digitsValue (List.replicate n '0' ++ digits) = digitsValue digits := by
  have hzeros : Nat.ofDigitChars 10 (List.replicate n '0') 0 = 0 := by
    rw [Nat.ofDigitChars_replicate_zero, Nat.mul_zero]
  exact (Nat.ofDigitChars_append 0).trans (by rw [hzeros]; rfl)

/-- The number that a decimal stands for. -/
def Digits.value (d : Digits) : ℚ :=
  digitsValue d.digits * 10 ^ (d.exponent - d.digits.length + 1)

/-- The zeros at the end of a number that are not written. -/
theorem exists_zeros (digits : List Char) :
    ∃ n, digits = (digits.reverse.dropWhile (· = '0')).reverse ++ List.replicate n '0' := by
  refine ⟨(digits.reverse.takeWhile (· = '0')).length, ?_⟩
  have hzeros : digits.reverse.takeWhile (· = '0') =
      List.replicate (digits.reverse.takeWhile (· = '0')).length '0' := by
    refine List.eq_replicate_iff.mpr ⟨rfl, fun c hc => ?_⟩
    have htest : decide (c = '0') = true := List.mem_takeWhile_imp (p := fun c => c = '0') hc
    exact of_decide_eq_true htest
  rw [← List.reverse_replicate, ← hzeros, ← List.reverse_append, List.takeWhile_append_dropWhile,
    List.reverse_reverse]

theorem value_ofProduct (c : Nat) (k : Int) : (Digits.ofProduct c k).value = c * 10 ^ k := by
  obtain ⟨n, hn⟩ := exists_zeros (Nat.toDigits 10 c)
  have hvalue : 10 ^ n * digitsValue (Digits.ofProduct c k).digits = c := by
    rw [← digitsValue_append_zeros]
    exact (congrArg digitsValue hn.symm).trans (Nat.ofDigitChars_toDigits (by decide) (by decide))
  have hlength : (Nat.toDigits 10 c).length = (Digits.ofProduct c k).digits.length + n := by
    rw [congrArg List.length hn, List.length_append, List.length_replicate]
    rfl
  have hexponent : (Digits.ofProduct c k).exponent - (Digits.ofProduct c k).digits.length + 1 =
      n + k := by
    change k + ((Nat.toDigits 10 c).length : Int) - 1 - _ + 1 = _
    rw [hlength]
    push_cast
    ring
  have hcast : (c : ℚ) = 10 ^ n * digitsValue (Digits.ofProduct c k).digits := by
    exact_mod_cast hvalue.symm
  rw [Digits.value, hexponent, zpow_add₀ (by norm_num), zpow_natCast, hcast]
  ring

/-! ## What a double looks like -/

/-- A power of ten behind a number. -/
def exponentText (e : Int) : List Char :=
  'e' :: (if e < 0 then '-' else '+') :: Nat.toDigits 10 e.natAbs

/-- The forms of the numbers that are written for doubles, with what they stand for: there is a
point between digits, or an exponent, or both. -/
inductive Form : List Char → ℚ → Prop
  | point {whole fraction : List Char} {x : ℚ} : Digital whole → whole ≠ [] → Digital fraction →
      digitsValue (whole ++ fraction) * (10 : ℚ) ^ (-(fraction.length : Int)) = x →
        Form (whole ++ '.' :: fraction) x
  | exponent {digit : Char} {e : Int} {x : ℚ} : digit.isDigit = true →
      digitsValue [digit] * (10 : ℚ) ^ e = x → Form (digit :: exponentText e) x
  | pointExponent {digit : Char} {fraction : List Char} {e : Int} {x : ℚ} :
      digit.isDigit = true → Digital fraction →
        digitsValue (digit :: fraction) * (10 : ℚ) ^ (e - fraction.length) = x →
          Form (digit :: '.' :: (fraction ++ exponentText e)) x

variable {d : Digits}

/-- **A decimal without an exponent has a point.** -/
theorem form_positional (h : Digital d.digits) : Form (d.positional ['.', '0']) d.value := by
  by_cases hsmall : d.exponent < 0
  · -- zeros stand between the point and the digits
    have heq : d.positional ['.', '0'] =
        ['0'] ++ '.' :: (List.replicate ((-d.exponent).toNat - 1) '0' ++ d.digits) := if_pos hsmall
    rw [heq]
    refine .point (digital_zeros 1) (List.cons_ne_nil _ _)
      (List.forall_mem_append.mpr ⟨digital_zeros _, h⟩) ?_
    have hexponent : -((List.replicate ((-d.exponent).toNat - 1) '0' ++ d.digits).length : Int) =
        d.exponent - d.digits.length + 1 := by
      rw [List.length_append, List.length_replicate]
      omega
    have hdigits :
        digitsValue (['0'] ++ (List.replicate ((-d.exponent).toNat - 1) '0' ++ d.digits)) =
        digitsValue d.digits :=
      (digitsValue_zeros_append 1 _).trans (digitsValue_zeros_append _ _)
    rw [hdigits, hexponent, Digits.value]
  · by_cases hwhole : d.digits.length ≤ d.exponent.toNat + 1
    · -- zeros stand between the digits and the point
      obtain ⟨n, hn⟩ := Nat.exists_eq_add_of_le hwhole
      have heq : d.positional ['.', '0'] = d.digits ++
          List.replicate (d.exponent.toNat + 1 - d.digits.length) '0' ++ ['.', '0'] :=
        (if_neg hsmall).trans (if_pos hwhole)
      rw [hn, Nat.add_sub_cancel_left] at heq
      rw [heq]
      refine .point (List.forall_mem_append.mpr ⟨h, digital_zeros n⟩) ?_ (digital_zeros 1) ?_
      · apply List.ne_nil_of_length_pos
        rw [List.length_append, List.length_replicate]
        omega
      · have hdigits : digitsValue (d.digits ++ List.replicate n '0' ++ ['0']) =
            10 ^ (n + 1) * digitsValue d.digits := by
          rw [List.append_assoc, ← List.replicate_succ', digitsValue_append_zeros]
        have hexponent : d.exponent - d.digits.length + 1 = n := by omega
        rw [hdigits, Digits.value, hexponent]
        push_cast
        rw [List.length_singleton, zpow_natCast, Nat.cast_one, zpow_neg_one]
        ring
    · -- the point stands between digits
      have heq : d.positional ['.', '0'] = d.digits.take (d.exponent.toNat + 1) ++
          '.' :: d.digits.drop (d.exponent.toNat + 1) :=
        (if_neg hsmall).trans (if_neg hwhole)
      rw [heq]
      refine .point (fun c hc => h c (List.mem_of_mem_take hc)) ?_
        (fun c hc => h c (List.mem_of_mem_drop hc)) ?_
      · apply List.ne_nil_of_length_pos
        rw [List.length_take]
        omega
      · have hexponent : -((d.digits.drop (d.exponent.toNat + 1)).length : Int) =
            d.exponent - d.digits.length + 1 := by
          rw [List.length_drop]
          omega
        rw [List.take_append_drop, hexponent, Digits.value]

/-- **Any other decimal has an exponent.** -/
theorem form_scientific (h : Digital d.digits) (hne : d.digits ≠ []) :
    Form d.scientific d.value := by
  obtain ⟨first, others, hdigits⟩ := List.exists_cons_of_ne_nil hne
  rw [hdigits] at h
  obtain ⟨hfirst, hothers⟩ := List.forall_mem_cons.mp h
  cases others with
  | nil =>
    have heq : d.scientific = first :: exponentText d.exponent := by
      rw [Digits.scientific, hdigits]
      rfl
    rw [heq]
    refine .exponent hfirst ?_
    rw [Digits.value, hdigits, List.length_singleton, Nat.cast_one, sub_add_cancel]
  | cons second others =>
    have heq : d.scientific = first :: '.' :: (second :: others ++ exponentText d.exponent) := by
      rw [Digits.scientific, hdigits]
      rfl
    rw [heq]
    refine .pointExponent hfirst hothers ?_
    have hexponent : d.exponent - ((first :: second :: others).length : Int) + 1 =
        d.exponent - (second :: others).length := by
      rw [List.length_cons]
      push_cast
      ring
    rw [Digits.value, hdigits, hexponent]

/-- **What is written for a magnitude rounds to it.** -/
theorem exists_form (m : Nat) :
    ∃ x, Form (Layout.json.magnitude (m + 1)) x ∧ (Interval.ofMagnitude (m + 1)).Contains x := by
  obtain ⟨c, k, heq, hcontains⟩ := shortest_contains .toEven (Nat.succ_pos m)
  have hdigital := digital_shortest .toEven (m + 1)
  have hvalue : (shortest .toEven (m + 1)).value = c * 10 ^ k := by rw [heq, value_ofProduct]
  rw [← hvalue] at hcontains
  refine ⟨_, ?_, hcontains⟩
  have hne : (shortest .toEven (m + 1)).digits ≠ [] := by
    intro hnil
    have hpos := hcontains.pos
    rw [Digits.value, hnil] at hpos
    simp [digitsValue] at hpos
  by_cases hpositional : Layout.json.positional (shortest .toEven (m + 1)).exponent = true
  · have htext : Layout.json.magnitude (m + 1) = (shortest .toEven (m + 1)).positional ['.', '0'] :=
      (if_neg (Nat.succ_ne_zero m)).trans (if_pos hpositional)
    rw [htext]
    exact form_positional hdigital
  · have htext : Layout.json.magnitude (m + 1) = (shortest .toEven (m + 1)).scientific :=
      (if_neg (Nat.succ_ne_zero m)).trans (if_neg hpositional)
    rw [htext]
    exact form_scientific hdigital hne

theorem form_zero : Form (Layout.json.magnitude 0) 0 :=
  .point (digital_zeros 1) (List.cons_ne_nil _ _) (digital_zeros 1) (by simp [digitsValue])

/-! ## Reading -/

section Reading

variable {whole fraction rest : List Char} {e : Int}

/-- No digit comes first. -/
def NoDigit (cs : List Char) : Prop :=
  ∀ c ∈ cs.head?, c.isDigit = false

theorem takeWhile_isDigit (h : Digital whole) (hrest : NoDigit rest) :
    (whole ++ rest).takeWhile Char.isDigit = whole ∧
      (whole ++ rest).dropWhile Char.isDigit = rest := by
  rw [List.takeWhile_append_of_pos h, List.dropWhile_append_of_pos h]
  cases rest with
  | nil => simp
  | cons c cs =>
    have hc : c.isDigit = false := hrest c rfl
    simp [hc]

theorem readDigits?_of_digital (h : Digital whole) (hne : whole ≠ []) :
    readDigits? whole = some (digitsValue whole) := by
  have hempty := List.isEmpty_eq_false_iff.mpr hne
  have hall : whole.all Char.isDigit = true := List.all_eq_true.mpr h
  rw [readDigits?, hempty, hall]
  rfl

/-- A number with a point. -/
theorem readDecimal?_point (hwhole : Digital whole) (hne : whole ≠ [])
    (hfraction : Digital fraction)
    (hrest : NoDigit rest) (he : readExponent? rest = some e) :
    readDecimal? (whole ++ '.' :: (fraction ++ rest)) =
      some (digitsValue (whole ++ fraction), e - fraction.length) := by
  have hpoint : NoDigit ('.' :: (fraction ++ rest)) := by
    rintro c ⟨⟩
    rfl
  obtain ⟨htake, hdrop⟩ := takeWhile_isDigit hwhole hpoint
  obtain ⟨htake', hdrop'⟩ := takeWhile_isDigit hfraction hrest
  have hdigits : readDigits? (whole ++ fraction) = some (digitsValue (whole ++ fraction)) :=
    readDigits?_of_digital (List.forall_mem_append.mpr ⟨hwhole, hfraction⟩)
      (List.append_ne_nil_of_left_ne_nil hne _)
  simp only [readDecimal?, htake, hdrop, htake', hdrop', hdigits, he]

theorem noDigit_exponentText (e : Int) : NoDigit (exponentText e) := by
  rintro c ⟨⟩
  rfl

/-- An exponent is read as it is written. -/
theorem readExponent?_exponentText (e : Int) : readExponent? (exponentText e) = some e := by
  have hdigits : readDigits? (Nat.toDigits 10 e.natAbs) = some e.natAbs := by
    rw [readDigits?_of_digital (fun _ => Nat.isDigit_of_mem_toDigits (by decide) (by decide))
      Nat.toDigits_ne_nil]
    exact congrArg some (Nat.ofDigitChars_toDigits (by decide) (by decide))
  by_cases hneg : e < 0
  · rw [exponentText, if_pos hneg]
    change (readDigits? (Nat.toDigits 10 e.natAbs)).map (applySign true) = _
    rw [hdigits]
    change some (-(e.natAbs : Int)) = _
    congr 1
    omega
  · rw [exponentText, if_neg hneg]
    change (readDigits? (Nat.toDigits 10 e.natAbs)).map (applySign false) = _
    rw [hdigits]
    change some (e.natAbs : Int) = _
    congr 1
    omega

/-- A number without a point. -/
theorem readDecimal?_exponent (hwhole : Digital whole) (hne : whole ≠ []) (e : Int) :
    readDecimal? (whole ++ exponentText e) = some (digitsValue whole, e) := by
  obtain ⟨htake, hdrop⟩ := takeWhile_isDigit hwhole (noDigit_exponentText e)
  have hdigits := readDigits?_of_digital hwhole hne
  have he := readExponent?_exponentText e
  rw [exponentText] at htake hdrop he ⊢
  simp [readDecimal?, htake, hdrop, hdigits, he]

/-- **The forms of numbers are read as what they stand for.** -/
theorem Form.reads {text : List Char} {x : ℚ} (h : Form text x) :
    ∃ c e, readDecimal? text = some (c, e) ∧ (c : ℚ) * 10 ^ e = x := by
  cases h with
  | point hwhole hne hfraction hx =>
    have hnone : NoDigit [] := by rintro c ⟨⟩
    have hread := readDecimal?_point hwhole hne hfraction hnone rfl
    rw [List.append_nil, zero_sub] at hread
    exact ⟨_, _, hread, hx⟩
  | exponent hdigit hx =>
    exact ⟨_, _,
      readDecimal?_exponent (List.forall_mem_singleton.mpr hdigit) (List.cons_ne_nil _ _) _, hx⟩
  | pointExponent hdigit hfraction hx =>
    exact ⟨_, _, readDecimal?_point (List.forall_mem_singleton.mpr hdigit) (List.cons_ne_nil _ _)
      hfraction (noDigit_exponentText _) (readExponent?_exponentText _), hx⟩

theorem Form.unique {text : List Char} {x y : ℚ} (hx : Form text x) (hy : Form text y) : x = y := by
  obtain ⟨c, e, hread, rfl⟩ := hx.reads
  obtain ⟨c', e', hread', rfl⟩ := hy.reads
  obtain ⟨rfl, rfl⟩ := Prod.mk.inj (Option.some.inj (hread.symm.trans hread'))
  rfl

theorem Form.ne_minus {text cs : List Char} {x : ℚ} (h : Form text x) : text ≠ '-' :: cs := by
  rintro rfl
  obtain ⟨c, e, hread, -⟩ := h.reads
  simp [readDecimal?, readDigits?] at hread

end Reading

/-! ## Doubles -/

theorem exists_form_magnitude (m : Nat) : ∃ x, Form (Layout.json.magnitude m) x := by
  cases m with
  | zero => exact ⟨0, form_zero⟩
  | succ m =>
    obtain ⟨x, hform, -⟩ := exists_form m
    exact ⟨x, hform⟩

theorem json_magnitude_injective {m n : Nat}
    (h : Layout.json.magnitude m = Layout.json.magnitude n) : m = n := by
  cases m with
  | zero =>
    cases n with
    | zero => rfl
    | succ n =>
      obtain ⟨x, hform, hcontains⟩ := exists_form n
      rw [← h] at hform
      exact absurd (form_zero.unique hform) hcontains.pos.ne
  | succ m =>
    obtain ⟨x, hform, hcontains⟩ := exists_form m
    rw [h] at hform
    cases n with
    | zero => exact absurd (form_zero.unique hform) hcontains.pos.ne
    | succ n =>
      obtain ⟨y, hform', hcontains'⟩ := exists_form n
      obtain rfl := hform.unique hform'
      rw [Interval.contains_unique hcontains hcontains']

/-- **Doubles that are written alike are the same.** -/
theorem json_write_injective {x y : Binary64} (h : Layout.json.write x = Layout.json.write y) :
    x = y := by
  have htext := String.ofList_injective h
  obtain ⟨_, hx⟩ := exists_form_magnitude x.magnitude
  obtain ⟨_, hy⟩ := exists_form_magnitude y.magnitude
  cases hsign : x.negative with
  | false =>
    cases hsign' : y.negative with
    | false =>
      rw [hsign, hsign'] at htext
      exact Binary64.eq_of_negative_of_magnitude (hsign.trans hsign'.symm)
        (json_magnitude_injective htext)
    | true =>
      rw [hsign, hsign'] at htext
      exact absurd htext hx.ne_minus
  | true =>
    cases hsign' : y.negative with
    | false =>
      rw [hsign, hsign'] at htext
      exact absurd htext.symm hy.ne_minus
    | true =>
      rw [hsign, hsign'] at htext
      exact Binary64.eq_of_negative_of_magnitude (hsign.trans hsign'.symm)
        (json_magnitude_injective (List.append_cancel_left htext))

/-! ## Characters -/

/-- The characters of numbers in JSON. -/
def IsNumeral (c : Char) : Prop :=
  c.isDigit = true ∨ c ∈ ['-', '+', '.', 'e']

instance : DecidablePred IsNumeral :=
  fun c => inferInstanceAs (Decidable (c.isDigit = true ∨ c ∈ ['-', '+', '.', 'e']))

theorem isNumeral_exponentText (e : Int) : ∀ c ∈ exponentText e, IsNumeral c := by
  refine List.forall_mem_cons.mpr ⟨by decide, List.forall_mem_cons.mpr ⟨?_, fun c hc => .inl ?_⟩⟩
  · split_ifs <;> decide
  · exact Nat.isDigit_of_mem_toDigits (by decide) (by decide) hc

theorem Form.isNumeral {text : List Char} {x : ℚ} (h : Form text x) : ∀ c ∈ text, IsNumeral c := by
  have hdigital : ∀ {cs}, Digital cs → ∀ c ∈ cs, IsNumeral c := fun h c hc => .inl (h c hc)
  cases h with
  | point hwhole _ hfraction _ =>
    exact List.forall_mem_append.mpr ⟨hdigital hwhole,
      List.forall_mem_cons.mpr ⟨by decide, hdigital hfraction⟩⟩
  | exponent hdigit _ => exact List.forall_mem_cons.mpr ⟨.inl hdigit, isNumeral_exponentText _⟩
  | pointExponent hdigit hfraction _ =>
    exact List.forall_mem_cons.mpr ⟨.inl hdigit, List.forall_mem_cons.mpr ⟨by decide,
      List.forall_mem_append.mpr ⟨hdigital hfraction, isNumeral_exponentText _⟩⟩⟩

theorem Form.exists_mark {text : List Char} {x : ℚ} (h : Form text x) :
    '.' ∈ text ∨ 'e' ∈ text := by
  cases h with
  | point => exact .inl (List.mem_append_right _ List.mem_cons_self)
  | exponent => exact .inr (.tail _ List.mem_cons_self)
  | pointExponent => exact .inl (.tail _ List.mem_cons_self)

theorem isNumeral_json_write (x : Binary64) : ∀ c ∈ (Layout.json.write x).toList, IsNumeral c := by
  obtain ⟨_, hform⟩ := exists_form_magnitude x.magnitude
  rw [Layout.write, String.toList_ofList]
  refine List.forall_mem_append.mpr ⟨?_, hform.isNumeral⟩
  cases x.negative with
  | false => exact List.forall_mem_nil _
  | true => exact List.forall_mem_singleton.mpr (by decide)

/-- **No double is written like an integer.** -/
theorem exists_mark_json_write (x : Binary64) :
    '.' ∈ (Layout.json.write x).toList ∨ 'e' ∈ (Layout.json.write x).toList := by
  obtain ⟨_, hform⟩ := exists_form_magnitude x.magnitude
  rw [Layout.write, String.toList_ofList]
  exact hform.exists_mark.imp (List.mem_append_right _) (List.mem_append_right _)

end Decimal

end WireSchema
