import WireSchema.Declaration.Parser
import WireSchema.Proofs.Grammar

/-!
# What single tokens stand for

The readers of single tokens against the grammar: a lexical token is read as an integer, a literal,
a modifier word or a keyword with some value exactly when the grammar says that it has that value.
-/

namespace WireSchema

open Grammar

/-! ## Results -/

theorem map_eq_ok_iff {ε α β : Type} {f : α → β} {x : Except ε α} {b : β} :
    x.map f = .ok b ↔ ∃ a, x = .ok a ∧ f a = b := by
  cases x <;> simp [Except.map]

theorem bind_eq_ok_iff {ε α β : Type} {x : Except ε α} {f : α → Except ε β} {b : β} :
    x >>= f = .ok b ↔ ∃ a, x = .ok a ∧ f a = .ok b := by
  cases x <;> simp [bind, Except.bind]

theorem eq_ok_of_mem_toOption {ε α : Type} {x : Except ε α} {a : α} (h : a ∈ x.toOption) :
    x = .ok a := by
  cases x with
  | error e => cases h
  | ok b => exact congrArg Except.ok (Option.some.inj h)

/-! ## Strings -/

/-- The escapes that are known. -/
theorem escaped?_eq_some_iff {c d : Char} : Parser.escaped? c = some d ↔ (c, d) ∈ escapes := by
  simp only [Parser.escaped?, escapes, List.mem_cons, Prod.mk.injEq, List.not_mem_nil, or_false]
  grind

/-- A body is unescaped as its escapes say. -/
theorem unescape_eq_ok_iff {cs ds : List Char} :
    Parser.unescape cs = .ok ds ↔ Unescapes cs ds := by
  fun_induction Parser.unescape cs generalizing ds with
  | case1 =>
    refine ⟨?_, ?_⟩
    · rintro ⟨⟩
      exact .nil
    · rintro ⟨⟩
      rfl
  | case2 =>
    refine ⟨nofun, fun h => ?_⟩
    cases h with
    | plain hne _ => exact absurd rfl hne
  | case3 c cs d hd ih =>
    rw [map_eq_ok_iff]
    refine ⟨?_, ?_⟩
    · rintro ⟨es, hes, rfl⟩
      exact .escape (escaped?_eq_some_iff.mp hd) (ih.mp hes)
    · intro h
      cases h with
      | plain hne _ => exact absurd rfl hne
      | escape hmem h =>
        exact ⟨_, ih.mpr h, by rw [escapes_unique hmem (escaped?_eq_some_iff.mp hd)]⟩
  | case4 c cs hd =>
    refine ⟨nofun, fun h => ?_⟩
    cases h with
    | plain hne _ => exact absurd rfl hne
    | escape hmem _ =>
      rw [escaped?_eq_some_iff.mpr hmem] at hd
      cases hd
  | case5 c cs h1 h2 ih =>
    rw [map_eq_ok_iff]
    refine ⟨?_, ?_⟩
    · rintro ⟨es, hes, rfl⟩
      refine .plain ?_ (ih.mp hes)
      rintro rfl
      cases cs with
      | nil => exact h1 rfl rfl
      | cons e cs => exact h2 e cs rfl rfl
    · intro h
      cases h with
      | plain _ h => exact ⟨_, ih.mpr h, rfl⟩
      | escape _ _ => exact absurd rfl (h2 _ _ rfl)

/-! ## Words -/

theorem isWordRest_of_isWordStart {c : Char} (h : Text.isWordStart c = true) :
    Text.isWordRest c = true := by
  simp only [Text.isWordStart, Text.isWordRest, Char.isAlphanum, Bool.or_eq_true] at h ⊢
  tauto

/-- The characters of a word. -/
theorem isWordRest_of_isWord {text : String} (h : Text.isWord text = true) :
    ∀ c ∈ text.toList, Text.isWordRest c = true := by
  unfold Text.isWord at h
  cases htext : text.toList with
  | nil => simp
  | cons c cs =>
    rw [htext, Text.isWordChars, Bool.and_eq_true, List.all_eq_true] at h
    exact List.forall_mem_cons.mpr ⟨isWordRest_of_isWordStart h.1, h.2⟩

/-- Folding the case of a word is lowering it. -/
theorem foldCase_eq_toLower {c : Char} (h : Text.isWordRest c = true) :
    Keyword.foldCase c = c.toLower := by
  -- the two characters outside ASCII whose small letter is in ASCII stand in no word
  have hs : c ≠ '\u017f' := by
    rintro rfl
    exact absurd h (by decide)
  have hk : c ≠ '\u212a' := by
    rintro rfl
    exact absurd h (by decide)
  rw [Keyword.foldCase, if_neg hs, if_neg hk]

/-- Keywords are recognised in any case. -/
theorem Keyword.ofText?_eq_some_iff {text : String} {word : Keyword} :
    Keyword.ofText? text = some word ↔
      text.toList.map Keyword.foldCase = (keywordText word).toList := by
  have hspell : text.toList.map Keyword.foldCase = (keywordText word).toList ↔
      String.ofList (text.toList.map Keyword.foldCase) = keywordText word := by
    rw [← String.toList_inj, String.toList_ofList]
  rw [hspell, Keyword.ofText?]
  generalize String.ofList (text.toList.map Keyword.foldCase) = spelling
  refine ⟨?_, ?_⟩
  · intro h
    split_ifs at h with hname hconst henum hmessage <;> cases h <;> assumption
  · rintro rfl
    cases word <;> rfl

/-- **Keywords are recognized in any case**, and nothing else is. -/
theorem Keyword.ofToken?_eq_some_iff {t : Token} (ht : t.Lexical) {word : Keyword} :
    Keyword.ofToken? t = some word ↔
      t.isIdentifier = true ∧ t.text.toList.map Char.toLower = (keywordText word).toList := by
  unfold Keyword.ofToken?
  by_cases hid : t.isIdentifier = true
  · have hword : Text.isWord t.text = true := ht.word (of_decide_eq_true hid)
    have hmap : t.text.toList.map Keyword.foldCase = t.text.toList.map Char.toLower :=
      List.map_congr_left fun c hc => foldCase_eq_toLower (isWordRest_of_isWord hword c hc)
    rw [if_pos hid, Keyword.ofText?_eq_some_iff, hmap]
    exact ⟨fun h => ⟨hid, h⟩, fun h => h.2⟩
  · rw [if_neg hid]
    exact ⟨nofun, fun h => absurd h.1 hid⟩

namespace Parser

/-- Modifiers are recognised in lower case only. -/
theorem modifierWord?_eq_some_iff {t : Token} {word : Written.ModifierWord} :
    modifierWord? t = some word ↔ t.isIdentifier = true ∧ t.text = word.text := by
  unfold modifierWord? Written.ModifierWord.ofText?
  refine ⟨?_, ?_⟩
  · intro h
    split_ifs at h with hid hrepeated hoptional <;> cases h
    · exact ⟨hid, hrepeated⟩
    · exact ⟨hid, hoptional⟩
  · rintro ⟨hid, htext⟩
    rw [if_pos hid, htext]
    cases word <;> rfl

/-! ## Tokens -/

/-- The value of an integer token is what it spells. -/
theorem integerOf_eq_ok_iff {expected : Expected} {t : Token} (ht : t.Lexical) {value : Int} :
    integerOf expected t = .ok value ↔ t.kind = .integer ∧ SpellsInteger t.text value := by
  unfold integerOf
  cases hk : t.kind with
  | integer =>
    simp only [true_and, ← readInteger?_eq_some_iff (ht.unsigned hk)]
    cases Decimal.readInteger? t.text <;> simp
  | identifier | number | string | symbol => simp

/-- The value of a string token is what stands between its quotes, unescaped. -/
theorem stringOf_eq_ok_iff {t : Token} {body : List Char}
    (ht : t.text.toList = '"' :: (body ++ ['"'])) {value : String} :
    stringOf t = .ok value ↔ ∃ chars, Unescapes body chars ∧ String.ofList chars = value := by
  have hbody : t.text.toList.tail.dropLast = body := by
    rw [ht, List.tail_cons, List.dropLast_concat]
  unfold stringOf
  simp only [hbody, ← unescape_eq_ok_iff]
  cases unescape body <;> simp

/-- **A lexical token is read as a literal** exactly if the grammar says that it is one. -/
theorem literalOf_eq_ok_iff {t : Token} (ht : t.Lexical) {value : Literal} :
    literalOf t = .ok value ↔ SpellsLiteral t value := by
  unfold literalOf
  cases hk : t.kind with
  | integer =>
    simp only [map_eq_ok_iff, integerOf_eq_ok_iff ht]
    refine ⟨?_, ?_⟩
    · rintro ⟨i, ⟨-, hi⟩, rfl⟩
      exact .integer hk hi
    · intro h
      cases h with
      | integer _ hi => exact ⟨_, ⟨hk, hi⟩, rfl⟩
      | number hk' | string hk' | bool hk' => simp [hk] at hk'
  | number =>
    refine ⟨fun h => ?_, fun h => ?_⟩
    · cases hx : Binary64.read? t.text with
      | none => simp [hx] at h
      | some x =>
        simp only [hx, Except.ok.injEq] at h
        exact h ▸ .number hk ((read?_eq_some_iff (ht.parts hk)).mp hx)
    · cases h with
      | number _ hx => simp [(read?_eq_some_iff (ht.parts hk)).mpr hx]
      | integer hk' | string hk' | bool hk' => simp [hk] at hk'
  | string =>
    obtain ⟨body, hbody⟩ := ht.quoted hk
    simp only [map_eq_ok_iff, stringOf_eq_ok_iff hbody]
    refine ⟨?_, ?_⟩
    · rintro ⟨_, ⟨chars, hchars, rfl⟩, rfl⟩
      exact .string hk hbody hchars
    · intro h
      cases h with
      | string _ hbody' hchars =>
        obtain rfl := List.append_cancel_right (List.cons.inj (hbody.symm.trans hbody')).2
        exact ⟨_, ⟨_, hchars, rfl⟩, rfl⟩
      | integer hk' | number hk' | bool hk' => simp [hk] at hk'
  | identifier =>
    refine ⟨?_, ?_⟩
    · intro h
      simp only at h
      split_ifs at h with htrue hfalse <;> cases h
      · exact .bool hk htrue
      · exact .bool hk hfalse
    · intro h
      cases h with
      | @bool b _ htext => cases b <;> simp [htext]
      | integer hk' | number hk' | string hk' => simp [hk] at hk'
  | symbol =>
    refine ⟨nofun, fun h => ?_⟩
    cases h with
    | integer hk' | number hk' | string hk' | bool hk' => simp [hk] at hk'

end Parser

end WireSchema
