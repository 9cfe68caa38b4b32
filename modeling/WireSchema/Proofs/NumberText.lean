import WireSchema.Decimal.Layout
import WireSchema.Proofs.Accepted
import WireSchema.Proofs.CaseShapes
import WireSchema.Proofs.References
import WireSchema.Proofs.WireProgram

/-!
# Numbers in source code

The text of a number names nothing: its words start with digits. The exceptions would be the words
for infinity and for what is not a number. They cannot occur, because the constants of an accepted
schema are finite (`Schema.ofText_isFinite`): a number is checked, and an integer has no more than
128 bits.
-/

namespace WireSchema

/-! ## Values of constants -/

namespace Binary64

theorem magnitude_ofParts (negative : Bool) {magnitude : Nat} (h : magnitude < Nat.pow 2 63) :
    (ofParts negative magnitude).magnitude = magnitude := by
  change (UInt64.ofNat ((if negative then Nat.pow 2 63 else 0) + magnitude)).toNat % Nat.pow 2 63 =
    magnitude
  rw [UInt64.toNat_ofNat']
  have hpow : Nat.pow 2 63 = 9223372036854775808 := rfl
  rw [hpow] at h ⊢
  cases negative with
  | false =>
    rw [if_neg Bool.false_ne_true]
    omega
  | true =>
    rw [if_pos rfl]
    omega

/-- Rounding adds one at most. -/
theorem roundDiv_le (n d : Nat) : roundDiv n d ≤ n / d + 1 := by
  simp only [roundDiv]
  split_ifs <;> omega

theorem log2_mul_pow_le {n a : Nat} (h : n ≤ 2 ^ a) (k : Nat) :
    (n * Nat.pow 2 k).log2 ≤ a + k := by
  change (n * 2 ^ k).log2 ≤ a + k
  by_cases hzero : n = 0
  · simp [hzero]
  · rw [← Nat.lt_succ_iff, Nat.log2_lt (Nat.mul_ne_zero hzero (Nat.two_pow_pos k).ne')]
    calc n * 2 ^ k ≤ 2 ^ a * 2 ^ k := Nat.mul_le_mul_right _ h
      _ = 2 ^ (a + k) := (Nat.pow_add ..).symm
      _ < 2 ^ (a + k + 1) := Nat.pow_lt_pow_succ (by decide)

/-- At most fifty-three bits are kept. -/
theorem div_dropped_lt (units : Nat) : units / 2 ^ (units.log2 - 52) < 2 ^ 53 := by
  rw [Nat.div_lt_iff_lt_mul (Nat.two_pow_pos _), ← Nat.pow_add]
  exact Nat.lt_log2_self.trans_le (Nat.pow_le_pow_right (by decide) (by omega))

/-- Integers of 128 bits are far below the greatest double. -/
theorem roundRatio_one_lt {n : Nat} (h : n ≤ 2 ^ 127) : roundRatio n 1 < infinityMagnitude := by
  have hlog := log2_mul_pow_le h 1074
  rw [roundRatio, Nat.div_one, Nat.one_mul]
  generalize n * Nat.pow 2 1074 = units at hlog ⊢
  have hround := roundDiv_le units (Nat.pow 2 (units.log2 - 52))
  have hkept : units / Nat.pow 2 (units.log2 - 52) < 2 ^ 53 := div_dropped_lt units
  have hdropped : units.log2 - 52 ≤ 1149 := by omega
  refine lt_of_le_of_lt (Nat.min_le_right _ _) ?_
  calc (units.log2 - 52) * Nat.pow 2 52 + roundDiv units (Nat.pow 2 (units.log2 - 52))
      ≤ 1149 * Nat.pow 2 52 + 2 ^ 53 :=
        Nat.add_le_add (Nat.mul_le_mul_right _ hdropped) (hround.trans hkept)
    _ < infinityMagnitude := by decide

/-- An integer of 128 bits becomes a finite double. -/
theorem isFinite_ofInt {i : Int} (h : i.natAbs ≤ 2 ^ 127) : (ofInt i).isFinite = true := by
  have hlt := roundRatio_one_lt h
  have hinfinity : infinityMagnitude < Nat.pow 2 63 := by decide
  rw [isFinite, ofInt, magnitude_ofParts _ (by omega), decide_eq_true_iff]
  exact hlt

theorem isNaN_of_isFinite {x : Binary64} (h : x.isFinite = true) : x.isNaN = false := by
  rw [isFinite, decide_eq_true_iff] at h
  rw [isNaN, decide_eq_false_iff_not]
  omega

end Binary64

/-- An integer literal fits into 128 bits. -/
theorem Grammar.SpellsLiteral.natAbs_le {t : Token} {i : Int} (h : SpellsLiteral t (.integer i)) :
    i.natAbs ≤ 2 ^ 127 := by
  cases h with
  | integer _ hspells =>
    obtain ⟨_, _, _, hleast, hgreatest⟩ := hspells
    omega

/-- The literals of a sentence are spelled by its tokens. -/
theorem Grammar.Sentence.exists_spells {sentence : Sentence} {w : Written.Constant}
    (h : .constant w ∈ sentence.tree) : ∃ t, SpellsLiteral t w.value := by
  obtain ⟨⟨word, keyword, body⟩, -, htree⟩ := List.mem_map.mp h
  cases body with
  | constant c =>
    obtain rfl := Written.Declaration.constant.inj htree
    exact ⟨c.value.token, c.value.spells⟩
  | name => cases htree
  | enum => cases htree
  | message => cases htree

/-- A number that a constant gets is finite. -/
theorem Resolve.isFinite_of_constantValue? {type : Primitive} {literal : Literal} {t : Token}
    (hspells : Grammar.SpellsLiteral t literal) {x : Binary64}
    (h : constantValue? type literal = some (.number x)) : x.isFinite = true := by
  cases literal with
  | number value =>
    have hfinite := (exists_constantValue?_iff.mp ⟨_, h⟩).1
    have hvalue : value = x := by cases type <;> simp_all [constantValue?]
    exact hvalue ▸ hfinite
  | integer value =>
    have hvalue : Binary64.ofInt value = x := by
      cases type <;> simp_all [constantValue?, Primitive.integerRange?]
    exact hvalue ▸ Binary64.isFinite_ofInt hspells.natAbs_le
  | string value => cases type <;> simp [constantValue?] at h
  | bool value => cases type <;> simp [constantValue?] at h

/-- **The value of a constant is finite**, if it is a double. -/
theorem Schema.ofText_isFinite {mode : ErrorMode} {text : String} {s : Schema}
    (h : Schema.ofText mode text = .ok s) {c : Constant} (hc : c ∈ s.constants) {x : Binary64}
    (hx : c.value = .number x) : x.isFinite = true := by
  obtain ⟨sentence, -, hs⟩ := exists_sentence_of_ofText h
  obtain ⟨w, hw, himage⟩ := Resolve.exists_of_mem_forall₂ hs.constants hc
  obtain ⟨t, hspells⟩ := Grammar.Sentence.exists_spells (Written.mem_constantsIn.mp hw)
  have hvalue := himage.value
  rw [hx] at hvalue
  exact Resolve.isFinite_of_constantValue? hspells hvalue

/-- No constant of an accepted schema is the number that is none. -/
theorem Schema.ofText_constants_isNaN {mode : ErrorMode} {text : String} {s : Schema}
    (h : Schema.ofText mode text = .ok s) {c : Constant} (hc : c ∈ s.constants) {x : Binary64}
    (hx : c.value = .number x) : x.isNaN = false :=
  Binary64.isNaN_of_isFinite (ofText_isFinite h hc hx)

/-! ## Texts -/

namespace Source

open Text

variable {ok : String → Prop}

theorem isWordRest_of_isDigit {c : Char} (h : c.isDigit = true) : isWordRest c = true := by
  simp [isWordRest, Char.isAlphanum, h]

theorem isWordStart_of_isDigit {c : Char} (h : c.isDigit = true) : isWordStart c = false :=
  Naming.forall_ascii (P := fun c => c.isDigit = true → isWordStart c = false) (by decide +kernel)
    (Naming.ascii_of_isWordRest (isWordRest_of_isDigit h)) h

/-- A word that starts with a digit names nothing. -/
theorem reads_numeral {cs : List Char} (hdigit : ∃ c ∈ cs.head?, c.isDigit = true)
    (hcs : ∀ c ∈ cs, isWordRest c = true) : Reads ok .code (String.ofList cs) .code := by
  obtain ⟨c, hc, hdigit⟩ := hdigit
  apply reads_name
  · rw [isName_iff, String.toList_ofList]
    exact ⟨List.ne_nil_of_mem (List.mem_of_mem_head? hc), hcs⟩
  · intro hname
    rw [String.toList_ofList, isNamelike, Option.mem_def.mp hc, Option.any_some,
      isWordStart_of_isDigit hdigit] at hname
    cases hname

/-- A fixed text without names. -/
theorem reads_fixed {cs : List Char} {p q : Place} (hplace : p.through (marks cs) = q)
    (hnames : namesFrom p (marks cs) = []) : Reads ok p (String.ofList cs) q := by
  refine ⟨by rwa [String.toList_ofList], ?_⟩
  rw [String.toList_ofList, hnames]
  exact nofun

/-- A minus sign may stand in front of a number. -/
theorem Reads.minus {text : String} {q : Place} (h : Reads ok .code text q) :
    Reads ok .code ("-" ++ text) q :=
  Reads.append (reads_fixed rfl rfl) h (.inl rfl)

theorem exists_digit_toString (n : Nat) : ∃ c ∈ (toString n).toList.head?, c.isDigit = true := by
  cases hcs : (toString n).toList with
  | nil => exact absurd hcs (Decimal.toList_toString_ne_nil n)
  | cons c cs => exact ⟨c, rfl, Decimal.isDigit_of_mem_toString (hcs ▸ List.mem_cons_self)⟩

/-- Natural numbers, with what may follow the digits of one. -/
theorem reads_natWith (n : Nat) {suffix : List Char} (hsuffix : ∀ c ∈ suffix, isWordRest c = true) :
    Reads ok .code (toString n ++ String.ofList suffix) .code := by
  obtain ⟨c, hc, hdigit⟩ := exists_digit_toString n
  have htext : toString n ++ String.ofList suffix =
      String.ofList ((toString n).toList ++ suffix) := by
    rw [String.ofList_append, String.ofList_toList]
  rw [htext]
  apply reads_numeral
  · refine ⟨c, ?_, hdigit⟩
    rw [List.head?_append, Option.mem_def.mp hc]
    rfl
  · refine List.forall_mem_append.mpr ⟨fun c hc => ?_, hsuffix⟩
    exact isWordRest_of_isDigit (Decimal.isDigit_of_mem_toString hc)

/-- Integers, with what may follow the digits of one. -/
theorem reads_intWith (i : Int) {suffix : List Char} (hsuffix : ∀ c ∈ suffix, isWordRest c = true) :
    Reads ok .code (toString i ++ String.ofList suffix) .code := by
  cases i with
  | ofNat n => exact reads_natWith n hsuffix
  | negSucc n =>
    have htext : toString (Int.negSucc n) = "-" ++ toString (n + 1) := rfl
    rw [htext, String.append_assoc]
    exact (reads_natWith (n + 1) hsuffix).minus

/-- A natural number names nothing. -/
theorem reads_nat (n : Nat) : Reads ok .code (toString n) .code := by
  simpa using reads_natWith n (List.forall_mem_nil _)

/-- Neither does an integer. -/
theorem reads_int (i : Int) : Reads ok .code (toString i) .code := by
  simpa using reads_intWith i (List.forall_mem_nil _)

/-- An integer does not look like the end of an assignment. -/
theorem head?_marks_int (i : Int) (text : String) :
    (marks (toString i ++ text).toList).head? ≠ some (.sign '=') := by
  cases i with
  | ofNat n =>
    obtain ⟨c, hc, hdigit⟩ := exists_digit_toString n
    obtain ⟨cs, hcs⟩ := List.head?_eq_some_iff.mp (Option.mem_def.mp hc)
    have htext : (toString (Int.ofNat n)).toList = c :: cs := hcs
    rw [String.toList_append, htext]
    refine head?_marks_ne ?_ ⟨?_, ?_⟩ _ <;>
    · rintro rfl
      cases hdigit
  | negSucc n =>
    have htext : toString (Int.negSucc n) = "-" ++ toString (n + 1) := rfl
    rw [htext, String.append_assoc, String.toList_append]
    exact head?_marks_ne (by decide) (by decide) _

end Source

/-! ## Doubles -/

namespace Decimal

/-- The list has digits only. -/
def Digital (cs : List Char) : Prop :=
  ∀ c ∈ cs, c.isDigit = true

theorem digital_zeros (n : Nat) : Digital (List.replicate n '0') := by
  intro c hc
  rw [List.eq_of_mem_replicate hc]
  rfl

theorem digital_ofProduct (c : Nat) (k : Int) : Digital (Digits.ofProduct c k).digits := by
  intro d hd
  have hmem := (List.dropWhile_sublist _).mem (List.mem_reverse.mp hd)
  exact Nat.isDigit_of_mem_toDigits (by decide) (by decide) (List.mem_reverse.mp hmem)

/-- The shortest decimal is made of digits. -/
theorem digital_shortest (tie : Tie) (magnitude : Nat) :
    Digital (shortest tie magnitude).digits := by
  have hfrom : ∀ n i k, Digital (shortestFrom tie i k n).digits := by
    intro n
    induction n with
    | zero => exact fun i k => digital_ofProduct _ _
    | succ n ih =>
      intro i k
      rw [shortestFrom]
      split
      · exact digital_ofProduct _ _
      · exact ih i (k - 1)
  exact hfrom _ _ _

/-- What a number without an exponent looks like: digits, or digits around a point. -/
theorem positional_shape {d : Digits} (h : Digital d.digits) :
    ∃ whole, Digital whole ∧ whole ≠ [] ∧
      (d.positional [] = whole ∨ ∃ fraction, Digital fraction ∧
        d.positional [] = whole ++ '.' :: fraction) := by
  by_cases hsmall : d.exponent < 0
  · have heq : d.positional [] =
        ['0'] ++ '.' :: (List.replicate ((-d.exponent).toNat - 1) '0' ++ d.digits) := if_pos hsmall
    refine ⟨['0'], digital_zeros 1, List.cons_ne_nil _ _, .inr ⟨_, ?_, heq⟩⟩
    exact List.forall_mem_append.mpr ⟨digital_zeros _, h⟩
  · by_cases hwhole : d.digits.length ≤ d.exponent.toNat + 1
    · have heq : d.positional [] =
          d.digits ++ List.replicate (d.exponent.toNat + 1 - d.digits.length) '0' ++ [] :=
        (if_neg hsmall).trans (if_pos hwhole)
      rw [List.append_nil] at heq
      refine ⟨_, List.forall_mem_append.mpr ⟨h, digital_zeros _⟩, ?_, .inl heq⟩
      apply List.ne_nil_of_length_pos
      rw [List.length_append, List.length_replicate]
      omega
    · have heq : d.positional [] = d.digits.take (d.exponent.toNat + 1) ++
          '.' :: d.digits.drop (d.exponent.toNat + 1) :=
        (if_neg hsmall).trans (if_neg hwhole)
      refine ⟨_, fun c hc => h c (List.mem_of_mem_take hc), ?_, .inr ⟨_, ?_, heq⟩⟩
      · apply List.ne_nil_of_length_pos
        rw [List.length_take]
        omega
      · exact fun c hc => h c (List.mem_of_mem_drop hc)

/-- A magnitude is written as digits, perhaps with a point and digits behind them. -/
theorem magnitude_shape (magnitude : Nat) :
    ∃ whole, Digital whole ∧ whole ≠ [] ∧
      (Layout.plain.magnitude magnitude = whole ∨ ∃ fraction, Digital fraction ∧
        Layout.plain.magnitude magnitude = whole ++ '.' :: fraction) := by
  by_cases hzero : magnitude = 0
  · exact ⟨['0'], digital_zeros 1, List.cons_ne_nil _ _, .inl (if_pos hzero)⟩
  · have heq : Layout.plain.magnitude magnitude = (shortest .up magnitude).positional [] :=
      if_neg hzero
    rw [heq]
    exact positional_shape (digital_shortest _ _)

end Decimal

namespace Source

open Decimal (Digital)

variable {ok : String → Prop}

/-- Where the text of a number can end: after a digit, or after a point. -/
def Place.isNumberEnd : Place → Bool
  | .code | .dot => true
  | _ => false

theorem Place.isDone_of_isNumberEnd {q : Place} (h : q.isNumberEnd = true) : q.isDone = true := by
  cases q with
  | code | dot => rfl
  | _ => cases h

/-- Digits name nothing. -/
theorem reads_digits {cs : List Char} (h : Digital cs) (hne : cs ≠ []) :
    Reads ok .code (String.ofList cs) .code := by
  apply reads_numeral
  · cases cs with
    | nil => exact absurd rfl hne
    | cons c cs => exact ⟨c, rfl, h c List.mem_cons_self⟩
  · exact fun c hc => isWordRest_of_isDigit (h c hc)

/-- Neither does a fraction. -/
theorem reads_fraction {cs : List Char} (h : Digital cs) :
    ∃ q : Place, q.isNumberEnd = true ∧ Reads ok .code (String.ofList ('.' :: cs)) q := by
  have hpoint : Reads ok .code (String.ofList ['.']) .dot := reads_fixed rfl rfl
  cases cs with
  | nil => exact ⟨.dot, rfl, hpoint⟩
  | cons c cs =>
    rw [← List.singleton_append, String.ofList_append]
    have hname : isName (String.ofList (c :: cs)) = true := by
      rw [isName_iff, String.toList_ofList]
      exact ⟨List.cons_ne_nil c cs, fun d hd => isWordRest_of_isDigit (h d hd)⟩
    exact ⟨.code, rfl,
      hpoint.append (reads_silent hname rfl) (.inl (by rw [String.toList_ofList]; rfl))⟩

/-- A finite double is written with digits and at most one point. -/
theorem reads_magnitude (magnitude : Nat) : ∃ q : Place, q.isNumberEnd = true ∧
    Reads ok .code (String.ofList (Decimal.Layout.plain.magnitude magnitude)) q := by
  obtain ⟨whole, hwhole, hne, heq | ⟨fraction, hfraction, heq⟩⟩ := Decimal.magnitude_shape magnitude
  · rw [heq]
    exact ⟨.code, rfl, reads_digits hwhole hne⟩
  · obtain ⟨q, hq, hreads⟩ := reads_fraction hfraction
    rw [heq, String.ofList_append]
    exact ⟨q, hq,
      (reads_digits hwhole hne).append hreads (.inr (by rw [String.toList_ofList]; rfl))⟩

/-- **The text of a double** that is a number names nothing but infinity. -/
theorem reads_display (hinfinity : ok "inf") {x : Binary64} (h : x.isNaN = false) :
    ∃ q : Place, q.isNumberEnd = true ∧ Reads ok .code x.display q := by
  have hword : Reads ok .code "inf" .code := reads_name (by decide) fun _ => hinfinity
  rw [Binary64.display, h, if_neg Bool.false_ne_true]
  split
  · obtain ⟨q, hq, hreads⟩ :
        ∃ q : Place, q.isNumberEnd = true ∧ Reads ok .code (String.ofList _) q :=
      reads_magnitude x.magnitude
    refine ⟨q, hq, ?_⟩
    rw [Decimal.Layout.write, String.ofList_append]
    split
    · exact hreads.minus
    · rwa [String.ofList_nil, String.empty_append]
  · split
    · exact ⟨.code, rfl, hword.minus⟩
    · exact ⟨.code, rfl, hword⟩

end Source

end WireSchema
