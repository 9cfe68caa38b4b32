import WireSchema.Naming.Case
import WireSchema.Proofs.PathSteps
import WireSchema.Proofs.Relexing

/-!
# The shapes of spelled names

What the four spellings of a word can look like. None of them leaves the characters of words. A name
in Pascal case has no underscore and starts with a capital or a digit, so with a capital if it is a
word; camel case is the same with a small letter. A name in screaming snake case has no small
letter.
-/

namespace WireSchema.Naming

open Text (isWord isWordChars isWordRest isWordStart lowercase lowerOf uppercase upperOf
  visible_of_isWordRest)

/-! ## Characters -/

/-- A property of all ASCII characters can be checked code point by code point. -/
theorem forall_ascii {P : Char → Prop} (h : ∀ n < 128, P (Char.ofNat n)) {c : Char}
    (hc : c.toNat < 128) : P c := by
  have hn := h c.toNat hc
  rwa [Char.ofNat_toNat] at hn

/-- The characters of a list can stand in words. -/
def Wordly (cs : List Char) : Prop :=
  ∀ c ∈ cs, isWordRest c = true

/-- What a character of a word becomes, in either case: a character of a word, and an underscore
only if it was one. -/
structure Recased (c d : Char) : Prop where
  word : isWordRest d = true
  underscore : d = '_' → c = '_'

section

variable {c : Char} (h : isWordRest c = true)

include h

/-- The characters of words are ASCII. -/
theorem ascii_of_isWordRest : c.toNat < 128 := by
  have := (visible_of_isWordRest h).2
  omega

/-- So they have one upper case. -/
theorem upperOf_eq : upperOf c = [c.toUpper] :=
  Text.upperOf_ascii (ascii_of_isWordRest h)

/-- And one lower case. -/
theorem lowerOf_eq : lowerOf c = [c.toLower] :=
  Text.lowerOf_ascii (ascii_of_isWordRest h)

/-- Raising a character changes its case only. -/
theorem recased_toUpper : Recased c c.toUpper := by
  obtain ⟨hword, hunderscore⟩ := forall_ascii (P := fun c => isWordRest c = true →
    isWordRest c.toUpper = true ∧ (c.toUpper = '_' → c = '_')) (by decide +kernel)
    (ascii_of_isWordRest h) h
  exact ⟨hword, hunderscore⟩

theorem recased_toLower : Recased c c.toLower := by
  obtain ⟨hword, hunderscore⟩ := forall_ascii (P := fun c => isWordRest c = true →
    isWordRest c.toLower = true ∧ (c.toLower = '_' → c = '_')) (by decide +kernel)
    (ascii_of_isWordRest h) h
  exact ⟨hword, hunderscore⟩

theorem isLower_toUpper : c.toUpper.isLower = false :=
  forall_ascii (P := fun c => c.toUpper.isLower = false) (by decide +kernel)
    (ascii_of_isWordRest h)

/-- A character that starts a word is a capital, a small letter or an underscore. -/
theorem isUpper_of_isWordStart (hstart : isWordStart c = true) (hlower : c.isLower = false) :
    c.isUpper = true ∨ c = '_' :=
  forall_ascii (P := fun c => isWordStart c = true → c.isLower = false →
    c.isUpper = true ∨ c = '_') (by decide +kernel) (ascii_of_isWordRest h) hstart hlower

end

/-- The upper case of a word is taken character by character. -/
theorem uppercase_eq_map {cs : List Char} (h : Wordly cs) : uppercase cs = cs.map Char.toUpper := by
  induction cs with
  | nil => rfl
  | cons c cs ih =>
    obtain ⟨hc, hcs⟩ := List.forall_mem_cons.mp h
    rw [uppercase, List.flatMap_cons, upperOf_eq hc, ← uppercase, ih hcs]
    rfl

/-- So is its lower case, since no sigma is among them. -/
theorem lowercaseAfter_eq_map {cs : List Char} (h : Wordly cs) (before : List Char) :
    Text.lowercaseAfter before cs = cs.map Char.toLower := by
  induction cs generalizing before with
  | nil => rfl
  | cons c cs ih =>
    obtain ⟨hc, hcs⟩ := List.forall_mem_cons.mp h
    have hsigma : c ≠ 'Σ' := by
      rintro rfl
      exact absurd hc (by decide)
    rw [Text.lowercaseAfter, if_neg hsigma, lowerOf_eq hc, ih hcs]
    rfl

theorem lowercase_eq_map {cs : List Char} (h : Wordly cs) : lowercase cs = cs.map Char.toLower :=
  lowercaseAfter_eq_map h []

/-! ## Characters without underscores -/

/-- The characters of a list can stand in words, and none is an underscore. -/
def Joined (cs : List Char) : Prop :=
  ∀ c ∈ cs, isWordRest c = true ∧ c ≠ '_'

theorem Joined.wordly {cs : List Char} (h : Joined cs) : Wordly cs :=
  fun c hc => (h c hc).1

/-- The list starts with no small letter. -/
def StartsHigh (cs : List Char) : Prop :=
  ∀ c ∈ cs.head?, c.isLower = false

/-- Lowering adds no underscore. -/
theorem joined_map_toLower {cs : List Char} (h : Joined cs) : Joined (cs.map Char.toLower) := by
  rintro _ hd
  obtain ⟨c, hc, rfl⟩ := List.mem_map.mp hd
  have hcase := recased_toLower (h c hc).1
  exact ⟨hcase.word, fun heq => (h c hc).2 (hcase.underscore heq)⟩

/-- A word with its first letter raised and the others lowered. -/
theorem titleWord_shape {cs : List Char} (h : Joined cs) :
    Joined (titleWord cs) ∧ StartsHigh (titleWord cs) := by
  cases cs with
  | nil => exact ⟨nofun, nofun⟩
  | cons c cs =>
    obtain ⟨⟨hc, hne⟩, hcs⟩ := List.forall_mem_cons.mp h
    have hcase := recased_toUpper hc
    have htail : Joined cs := hcs
    rw [titleWord, upperOf_eq hc, lowercase_eq_map htail.wordly]
    refine ⟨List.forall_mem_cons.mpr ⟨⟨hcase.word, fun heq => hne (hcase.underscore heq)⟩,
      joined_map_toLower hcs⟩, ?_⟩
    rintro _ ⟨⟩
    exact isLower_toUpper hc

/-- A raised word has no underscore, and starts high. -/
theorem raiseFirst_shape {cs : List Char} (h : Joined cs) :
    Joined (raiseFirst cs) ∧ StartsHigh (raiseFirst cs) := by
  cases cs with
  | nil => exact ⟨nofun, nofun⟩
  | cons c cs =>
    obtain ⟨⟨hc, hne⟩, hcs⟩ := List.forall_mem_cons.mp h
    have hcase := recased_toUpper hc
    rw [raiseFirst, upperOf_eq hc]
    refine ⟨List.forall_mem_cons.mpr ⟨⟨hcase.word, fun heq => hne (hcase.underscore heq)⟩, hcs⟩, ?_⟩
    rintro _ ⟨⟩
    exact isLower_toUpper hc

/-- The characters of a piece are characters of the whole. -/
theorem mem_of_mem_pieces {separator d : Char} {cs piece : List Char}
    (hpiece : piece ∈ Text.pieces separator cs) (hd : d ∈ piece) : d ∈ cs := by
  induction cs generalizing piece with
  | nil =>
    obtain rfl := List.mem_singleton.mp hpiece
    cases hd
  | cons c cs ih =>
    rw [Text.pieces] at hpiece
    split at hpiece
    · rcases List.mem_cons.mp hpiece with rfl | hpiece
      · cases hd
      · exact List.mem_cons_of_mem _ (ih hpiece hd)
    · split at hpiece
      · rename_i hnil
        exact absurd hnil (Text.pieces_ne_nil separator cs)
      · rename_i first others hpieces
        rw [hpieces] at ih
        rcases List.mem_cons.mp hpiece with rfl | hpiece
        · rcases List.mem_cons.mp hd with rfl | hd
          · exact List.mem_cons_self
          · exact List.mem_cons_of_mem _ (ih List.mem_cons_self hd)
        · exact List.mem_cons_of_mem _ (ih (List.mem_cons_of_mem _ hpiece) hd)

/-- Two texts that start high start high together. -/
theorem StartsHigh.append {cs ds : List Char} (hcs : StartsHigh cs) (hds : StartsHigh ds) :
    StartsHigh (cs ++ ds) := by
  cases cs with
  | nil => exact hds
  | cons c cs => exact hcs

/-- Title words start high and have no underscore between them. -/
theorem titleWords_shape {words : List (List Char)} (h : ∀ word ∈ words, Joined word) :
    Joined (words.flatMap titleWord) ∧ StartsHigh (words.flatMap titleWord) := by
  induction words with
  | nil => exact ⟨nofun, nofun⟩
  | cons word words ih =>
    obtain ⟨hword, hwords⟩ := List.forall_mem_cons.mp h
    obtain ⟨hjoined, hhigh⟩ := titleWord_shape hword
    obtain ⟨hjoined', hhigh'⟩ := ih hwords
    exact ⟨List.forall_mem_append.mpr ⟨hjoined, hjoined'⟩, hhigh.append hhigh'⟩

/-- **Pascal case** has no underscores, and starts with no small letter. -/
theorem pascalChars_shape {cs : List Char} (h : Wordly cs) :
    Joined (pascalChars cs) ∧ StartsHigh (pascalChars cs) := by
  rw [pascalChars]
  by_cases hunderscore : cs.contains '_' = true
  · rw [if_pos hunderscore]
    refine titleWords_shape fun word hword c hc => ?_
    have hpiece := (List.mem_filter.mp hword).1
    refine ⟨h c (mem_of_mem_pieces hpiece hc), ?_⟩
    rintro rfl
    exact Text.notMem_of_mem_pieces hpiece hc
  · have hjoined : Joined cs := by
      refine fun c hc => ⟨h c hc, ?_⟩
      rintro rfl
      exact hunderscore (List.contains_iff_mem.mpr hc)
    rw [if_neg hunderscore]
    split
    · exact titleWord_shape hjoined
    · exact raiseFirst_shape hjoined

/-- Lowering an acronym adds no underscore. -/
theorem joined_lowerAcronym {cs : List Char} (h : Joined cs) : Joined (lowerAcronym cs) := by
  induction cs with
  | nil => exact nofun
  | cons c cs ih =>
    obtain ⟨⟨hc, hne⟩, hcs⟩ := List.forall_mem_cons.mp h
    have hcase := recased_toLower hc
    rw [lowerAcronym, lowerOf_eq hc]
    split
    · split
      · exact h
      · exact List.forall_mem_cons.mpr ⟨⟨hcase.word, fun heq => hne (hcase.underscore heq)⟩, ih hcs⟩
    · exact h

/-- **Camel case** has no underscores, and starts with no capital. -/
theorem camelChars_shape {cs : List Char} (h : Wordly cs) :
    Joined (camelChars cs) ∧ ∀ c ∈ (camelChars cs).head?, c.isUpper = false := by
  obtain ⟨hjoined, -⟩ := pascalChars_shape h
  rw [camelChars]
  cases hpascal : pascalChars cs with
  | nil => exact ⟨nofun, nofun⟩
  | cons c rest =>
    rw [hpascal] at hjoined
    obtain ⟨⟨hc, hne⟩, hrest⟩ := List.forall_mem_cons.mp hjoined
    have hcase := recased_toLower hc
    rw [lowerLeading, lowerOf_eq hc]
    split
    · refine ⟨List.forall_mem_cons.mpr ⟨⟨hcase.word, fun heq => hne (hcase.underscore heq)⟩,
        joined_lowerAcronym hrest⟩, ?_⟩
      rintro _ ⟨⟩
      exact forall_ascii (P := fun c => c.toLower.isUpper = false) (by decide +kernel)
        (ascii_of_isWordRest hc)
    · rename_i hupper
      refine ⟨hjoined, ?_⟩
      rintro _ ⟨⟩
      exact forall_ascii (P := fun c => Text.isUpper c ≠ true → c.isUpper = false)
        (by decide +kernel) (ascii_of_isWordRest hc) hupper

/-! ## Snake case -/

/-- A piece of snake case belongs to a word. -/
theorem wordly_snakePiece {prev last : Option Char} {c : Char} (hc : isWordRest c = true)
    (rest : List Char) : Wordly (snakePiece prev last c rest) := by
  have hlower := (recased_toLower hc).word
  rw [snakePiece, lowerOf_eq hc]
  split
  · split
    · exact List.forall_mem_cons.mpr ⟨by decide, List.forall_mem_singleton.mpr hlower⟩
    · exact List.forall_mem_singleton.mpr hlower
  · split
    · split
      · exact List.forall_mem_singleton.mpr (by decide)
      · exact nofun
    · exact List.forall_mem_singleton.mpr hc

/-- So does snake case as a whole. -/
theorem wordly_snakeFrom {cs : List Char} (h : Wordly cs) (prev last : Option Char) :
    Wordly (snakeFrom prev last cs) := by
  induction cs generalizing prev last with
  | nil => exact nofun
  | cons c cs ih =>
    obtain ⟨hc, hcs⟩ := List.forall_mem_cons.mp h
    exact List.forall_mem_append.mpr ⟨wordly_snakePiece hc cs, ih hcs _ _⟩

/-- **Snake case** stays within the characters of words. -/
theorem wordly_snakeChars {cs : List Char} (h : Wordly cs) : Wordly (snakeChars cs) := by
  intro c hc
  have hmem := List.mem_reverse.mp hc
  exact wordly_snakeFrom h none none c
    (List.mem_reverse.mp ((List.dropWhile_sublist _).mem hmem))

/-! ## Spelled words -/

/-- The name starts with an ASCII capital and has no underscore. -/
def Capital (name : String) : Prop :=
  (∃ c ∈ name.toList.head?, c.isUpper = true) ∧ '_' ∉ name.toList

/-- The name starts with a small ASCII letter and has no underscore. -/
def Small (name : String) : Prop :=
  (∃ c ∈ name.toList.head?, c.isLower = true) ∧ '_' ∉ name.toList

/-- The name starts with an ASCII capital or an underscore. -/
def StartsCapital (name : String) : Prop :=
  ∃ c ∈ name.toList.head?, c.isUpper = true ∨ c = '_'

theorem wordly_of_isWord {name : String} (h : isWord name = true) : Wordly name.toList :=
  isWordRest_of_isWord h

theorem exists_start_of_isWord {name : String} (h : isWord name = true) :
    ∃ c ∈ name.toList.head?, isWordStart c = true := by
  rw [isWord] at h
  cases hcs : name.toList with
  | nil =>
    rw [hcs] at h
    cases h
  | cons c cs =>
    rw [hcs, isWordChars, Bool.and_eq_true] at h
    exact ⟨c, rfl, h.1⟩

section

variable {name : String} (hname : isWord name = true)

include hname

/-- **Pascal case has no underscore.** -/
theorem underscore_notMem_pascal : '_' ∉ (pascal name).toList := by
  rw [pascal, String.toList_ofList]
  exact fun h => ((pascalChars_shape (wordly_of_isWord hname)).1 _ h).2 rfl

/-- A name in Pascal case that is a word starts with a capital. -/
theorem capital_pascal (h : isWord (pascal name) = true) : Capital (pascal name) := by
  obtain ⟨c, hc, hstart⟩ := exists_start_of_isWord h
  have hunderscore := underscore_notMem_pascal hname
  have hhigh : c.isLower = false := by
    refine (pascalChars_shape (wordly_of_isWord hname)).2 c ?_
    rwa [pascal, String.toList_ofList] at hc
  refine ⟨⟨c, hc, ?_⟩, hunderscore⟩
  refine (isUpper_of_isWordStart (isWordRest_of_isWordStart hstart) hstart hhigh).resolve_right ?_
  rintro rfl
  exact hunderscore (List.mem_of_mem_head? hc)

/-- A name in camel case that is a word starts with a small letter. -/
theorem small_camel (h : isWord (camel name) = true) : Small (camel name) := by
  obtain ⟨c, hc, hstart⟩ := exists_start_of_isWord h
  obtain ⟨hjoined, hlow⟩ := camelChars_shape (wordly_of_isWord hname)
  have hunderscore : '_' ∉ (camel name).toList := by
    rw [camel, String.toList_ofList]
    exact fun h => (hjoined _ h).2 rfl
  have hupper : c.isUpper = false := by
    refine hlow c ?_
    rwa [camel, String.toList_ofList] at hc
  refine ⟨⟨c, hc, ?_⟩, hunderscore⟩
  rcases hlower : c.isLower with _ | _
  · have hcapital := isUpper_of_isWordStart (isWordRest_of_isWordStart hstart) hstart hlower
    rw [hupper] at hcapital
    rcases hcapital with hcapital | rfl
    · cases hcapital
    · exact absurd (List.mem_of_mem_head? hc) hunderscore
  · rfl

/-- A name in screaming snake case has no small letter. -/
theorem isLower_screaming : ∀ c ∈ (screaming name).toList, c.isLower = false := by
  have hsnake := wordly_snakeChars (wordly_of_isWord hname)
  rw [screaming, String.toList_ofList, uppercase_eq_map hsnake]
  intro _ hd
  obtain ⟨c, hc, rfl⟩ := List.mem_map.mp hd
  exact isLower_toUpper (hsnake c hc)

/-- Screaming case starts with a capital if it is a word. -/
theorem startsCapital_screaming (h : isWord (screaming name) = true) :
    StartsCapital (screaming name) := by
  obtain ⟨c, hc, hstart⟩ := exists_start_of_isWord h
  exact ⟨c, hc, isUpper_of_isWordStart (isWordRest_of_isWordStart hstart) hstart
    (isLower_screaming hname c (List.mem_of_mem_head? hc))⟩

theorem wordly_snake : Wordly (snake name).toList := by
  rw [snake, String.toList_ofList]
  exact wordly_snakeChars (wordly_of_isWord hname)

end

end WireSchema.Naming
