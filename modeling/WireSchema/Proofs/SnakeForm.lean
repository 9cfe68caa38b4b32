import Mathlib.Data.List.Chain
import Mathlib.Data.List.DropRight
import WireSchema.Proofs.TargetFiles

/-!
# Names in snake case

A name is in **snake form** if it consists of non-empty words of small letters and digits with
single underscores between them (`SnakeForm`): underscores neither begin it nor end it nor stand
together (`snakeForm_iff_smooth`). Such a name stays as it is when it is put in snake case
(`snakeChars_of_smooth`).

The snake case of a word is in snake form unless the word begins with underscores that a capital
follows (`hidesCapital`). The underscores themselves are dropped, but the capital is then taken for
the start of a second word, and one underscore is written in front of it (`snakeChars_eq`).
-/

namespace WireSchema

namespace Naming

open Text (isWord isWordRest isUpper lowerOf)

/-! ## Snake form -/

/-- Is the character a small ASCII letter or a digit? -/
def isSmall (c : Char) : Bool :=
  c.isLower || c.isDigit

/-- The name consists of non-empty words of small letters and digits, joined by single underscores.
-/
def SnakeForm (cs : List Char) : Prop :=
  ∃ words : List (List Char),
    (∀ word ∈ words, word ≠ [] ∧ ∀ c ∈ word, isSmall c = true) ∧ cs = ['_'].intercalate words

/-- The two characters are not both underscores. -/
def Apart (a b : Char) : Prop :=
  ¬ (a = '_' ∧ b = '_')

/-- Small letters, digits and underscores, where underscores neither begin nor end the name nor
stand together. -/
structure Smooth (cs : List Char) : Prop where
  chars : ∀ c ∈ cs, isSmall c = true ∨ c = '_'
  apart : cs.IsChain Apart
  head : '_' ∉ cs.head?
  last : '_' ∉ cs.getLast?

theorem ne_underscore_of_isSmall {c : Char} (h : isSmall c = true) : c ≠ '_' := by
  rintro rfl
  exact absurd h (by decide)

/-- A word in front of a name, with an underscore between them. -/
theorem Smooth.join {word cs : List Char} (hne : word ≠ []) (hword : ∀ c ∈ word, isSmall c = true)
    (hcs : cs ≠ []) (h : Smooth cs) : Smooth (word ++ '_' :: cs) := by
  obtain ⟨d, ds, rfl⟩ := List.exists_cons_of_ne_nil hcs
  refine ⟨?_, ?_, ?_, ?_⟩
  · refine List.forall_mem_append.mpr ⟨fun c hc => .inl (hword c hc), ?_⟩
    exact List.forall_mem_cons.mpr ⟨.inr rfl, h.chars⟩
  · refine List.isChain_append.mpr ⟨?_, h.apart.cons fun y hy hboth => ?_, ?_⟩
    · -- no underscore in the word
      refine List.Pairwise.isChain (List.pairwise_of_forall_mem_list fun a ha b _ hboth => ?_)
      exact ne_underscore_of_isSmall (hword a ha) hboth.1
    · exact h.head (hboth.2 ▸ hy)
    · intro a ha b _ hboth
      exact ne_underscore_of_isSmall (hword a (List.mem_of_getLast? ha)) hboth.1
  · rw [List.head?_append_of_ne_nil _ hne]
    exact fun hmem => ne_underscore_of_isSmall (hword _ (List.mem_of_mem_head? hmem)) rfl
  · rw [List.getLast?_append_of_ne_nil _ (List.cons_ne_nil _ _), List.getLast?_cons_cons]
    exact h.last

theorem smooth_of_word {word : List Char} (hword : ∀ c ∈ word, isSmall c = true) : Smooth word := by
  have hfree : '_' ∉ word := fun hmem => ne_underscore_of_isSmall (hword _ hmem) rfl
  refine ⟨fun c hc => .inl (hword c hc), ?_, fun h => hfree (List.mem_of_mem_head? h),
    fun h => hfree (List.mem_of_getLast? h)⟩
  refine List.Pairwise.isChain (List.pairwise_of_forall_mem_list fun a ha b _ hboth => ?_)
  exact hfree (hboth.1 ▸ ha)

/-- Small words with underscores between them are smooth. -/
theorem smooth_intercalate {words : List (List Char)}
    (h : ∀ word ∈ words, word ≠ [] ∧ ∀ c ∈ word, isSmall c = true) :
    Smooth (['_'].intercalate words) := by
  induction words with
  | nil => exact smooth_of_word (List.forall_mem_nil _)
  | cons word words ih =>
    obtain ⟨⟨hne, hword⟩, hwords⟩ := List.forall_mem_cons.mp h
    cases words with
    | nil =>
      rw [List.intercalate_singleton]
      exact smooth_of_word hword
    | cons next words =>
      have hnext := (List.forall_mem_cons.mp hwords).1.1
      rw [List.intercalate_cons_cons, List.append_assoc, List.singleton_append]
      refine Smooth.join hne hword ?_ (ih hwords)
      cases words with
      | nil => rwa [List.intercalate_singleton]
      | cons =>
        rw [List.intercalate_cons_cons, List.append_assoc]
        exact List.append_ne_nil_of_left_ne_nil hnext _

/-- A name without misplaced underscores can be cut into words at its underscores. -/
theorem snakeForm_of_smooth {cs : List Char} (h : Smooth cs) : SnakeForm cs := by
  induction cs using List.twoStepInduction with
  | nil => exact ⟨[], List.forall_mem_nil _, rfl⟩
  | singleton c =>
    have hc : isSmall c = true :=
      (h.chars c List.mem_cons_self).resolve_right fun heq => h.head (heq ▸ rfl)
    exact ⟨[[c]], by simpa using hc, rfl⟩
  | cons_cons c d cs ihskip ihnext =>
    have hc : isSmall c = true :=
      (h.chars c List.mem_cons_self).resolve_right fun heq => h.head (heq ▸ rfl)
    have hchars := (List.forall_mem_cons.mp h.chars).2
    have hlast := h.last
    rw [List.getLast?_cons_cons] at hlast
    by_cases hunderscore : d = '_'
    · -- the first word is a single character
      subst hunderscore
      obtain ⟨hhead, hapart⟩ := List.isChain_cons.mp h.apart.tail
      cases cs with
      | nil => exact absurd rfl hlast
      | cons e cs =>
        rw [List.getLast?_cons_cons] at hlast
        obtain ⟨words, hwords, heq⟩ := ihskip ⟨(List.forall_mem_cons.mp hchars).2, hapart,
          fun heq => hhead _ heq ⟨rfl, rfl⟩, hlast⟩
        refine ⟨[c] :: words, List.forall_mem_cons.mpr ⟨by simpa using hc, hwords⟩, ?_⟩
        cases words with
        | nil => cases heq
        | cons word words =>
          rw [List.intercalate_cons_cons, ← heq]
          rfl
    · -- the first word has another character
      obtain ⟨words, hwords, heq⟩ := ihnext d ⟨hchars, h.apart.tail,
        fun heq => hunderscore (Option.some.inj heq), hlast⟩
      cases words with
      | nil => cases heq
      | cons word words =>
        obtain ⟨⟨hne, hword⟩, hwords⟩ := List.forall_mem_cons.mp hwords
        refine ⟨(c :: word) :: words, List.forall_mem_cons.mpr ⟨⟨List.cons_ne_nil _ _,
          List.forall_mem_cons.mpr ⟨hc, hword⟩⟩, hwords⟩, ?_⟩
        cases words with
        | nil =>
          rw [List.intercalate_singleton] at heq ⊢
          rw [heq]
        | cons next words =>
          rw [List.intercalate_cons_cons] at heq ⊢
          rw [heq]
          rfl

/-- **Snake form** is a matter of where underscores stand. -/
theorem snakeForm_iff_smooth {cs : List Char} : SnakeForm cs ↔ Smooth cs := by
  refine ⟨?_, snakeForm_of_smooth⟩
  rintro ⟨words, hwords, rfl⟩
  exact smooth_intercalate hwords

/-! ## Characters of words -/

section

variable {c : Char} (h : isWordRest c = true)

include h

/-- A character of a word is a capital, an underscore, or small. -/
theorem isSmall_of_isWordRest (hupper : isUpper c = false) (hne : c ≠ '_') : isSmall c = true :=
  forall_ascii (P := fun c => isWordRest c = true → isUpper c = false → c ≠ '_' → isSmall c = true)
    (by decide +kernel) (ascii_of_isWordRest h) h hupper hne

/-- A capital that is lowered is small. -/
theorem isSmall_toLower (hupper : isUpper c = true) : isSmall c.toLower = true :=
  forall_ascii (P := fun c => isUpper c = true → isSmall c.toLower = true) (by decide +kernel)
    (ascii_of_isWordRest h) hupper

theorem isUpper_eq : isUpper c = c.isUpper :=
  if_pos (ascii_of_isWordRest h)

end

theorem isWordRest_of_isSmall {c : Char} (h : isSmall c = true) : isWordRest c = true := by
  have hsmall : (c.isLower || c.isDigit) = true := h
  change (c.isUpper || c.isLower || c.isDigit || decide (c = '_')) = true
  rw [Bool.or_assoc c.isUpper, hsmall, Bool.or_true, Bool.true_or]

theorem isUpper_of_isSmall {c : Char} (h : isSmall c = true) : isUpper c = false :=
  forall_ascii (P := fun c => isSmall c = true → isUpper c = false) (by decide +kernel)
    (ascii_of_isWordRest (isWordRest_of_isSmall h)) h

/-! ## One character after another -/

/-- What a character of a word adds to a name that ends in `last`: nothing, one character, or the
first character of a new word behind an underscore. -/
theorem snakePiece_cases (prev : Option Char) (last : Char) {c : Char} (rest : List Char)
    (hc : isWordRest c = true) :
    snakePiece prev (some last) c rest = [] ∨
      (∃ d, snakePiece prev (some last) c rest = [d] ∧ (isSmall d = true ∨ d = '_') ∧
        Apart last d) ∨
      ∃ d, snakePiece prev (some last) c rest = ['_', d] ∧ isSmall d = true ∧ last ≠ '_' := by
  have hapart {d : Char} (hd : isSmall d = true) : Apart last d :=
    fun hboth => ne_underscore_of_isSmall hd hboth.2
  rw [snakePiece, lowerOf_eq hc]
  cases hupper : isUpper c with
  | true =>
    have hsmall := isSmall_toLower hc hupper
    rw [if_pos rfl]
    split
    · rename_i hstarts
      exact .inr (.inr ⟨_, rfl, hsmall, by simpa using (Bool.and_eq_true_iff.mp hstarts).2⟩)
    · exact .inr (.inl ⟨_, rfl, .inl hsmall, hapart hsmall⟩)
  | false =>
    rw [if_neg Bool.false_ne_true]
    split
    · split
      · rename_i hlast
        refine .inr (.inl ⟨_, rfl, .inr rfl, fun hboth => ?_⟩)
        simp [hboth.1] at hlast
      · exact .inl rfl
    · rename_i hne
      have hsmall := isSmall_of_isWordRest hc hupper hne
      exact .inr (.inl ⟨_, rfl, .inl hsmall, hapart hsmall⟩)

/-- **Underscores never meet** in what follows the first character of a name in snake case. -/
theorem snakeFrom_apart {cs : List Char} (h : Wordly cs) (prev : Option Char) (last : Char) :
    (last :: snakeFrom prev (some last) cs).IsChain Apart ∧
      ∀ c ∈ snakeFrom prev (some last) cs, isSmall c = true ∨ c = '_' := by
  induction cs generalizing prev last with
  | nil => exact ⟨List.isChain_singleton _, List.forall_mem_nil _⟩
  | cons c cs ih =>
    obtain ⟨hc, hcs⟩ := List.forall_mem_cons.mp h
    rw [snakeFrom]
    rcases snakePiece_cases prev last cs hc with
      hpiece | ⟨d, hpiece, hd, hapart⟩ | ⟨d, hpiece, hd, hlast⟩
    · rw [hpiece]
      exact ih hcs _ last
    · rw [hpiece]
      obtain ⟨hchain, hchars⟩ := ih hcs (some c) d
      exact ⟨List.isChain_cons_cons.mpr ⟨hapart, hchain⟩, List.forall_mem_cons.mpr ⟨hd, hchars⟩⟩
    · rw [hpiece]
      obtain ⟨hchain, hchars⟩ := ih hcs (some c) d
      have hword : Apart '_' d := fun hboth => ne_underscore_of_isSmall hd hboth.2
      exact ⟨List.isChain_cons_cons.mpr ⟨fun hboth => hlast hboth.1,
        List.isChain_cons_cons.mpr ⟨hword, hchain⟩⟩,
        List.forall_mem_cons.mpr ⟨.inr rfl, List.forall_mem_cons.mpr ⟨.inl hd, hchars⟩⟩⟩

/-- What is in snake form already is written as it is. -/
theorem snakeFrom_of_apart {cs : List Char} {last : Char} (hapart : (last :: cs).IsChain Apart)
    (hchars : ∀ c ∈ cs, isSmall c = true ∨ c = '_') (prev : Option Char) :
    snakeFrom prev (some last) cs = cs := by
  induction cs generalizing prev last with
  | nil => rfl
  | cons c cs ih =>
    obtain ⟨hc, hcs⟩ := List.forall_mem_cons.mp hchars
    obtain ⟨hlast, hrest⟩ := List.isChain_cons_cons.mp hapart
    have hpiece : snakePiece prev (some last) c cs = [c] := by
      rcases hc with hsmall | rfl
      · rw [snakePiece, if_neg (by simp [isUpper_of_isSmall hsmall]),
          if_neg (ne_underscore_of_isSmall hsmall)]
      · have hne : last ≠ '_' := fun heq => hlast ⟨heq, rfl⟩
        rw [snakePiece, if_neg (by decide), if_pos rfl, if_pos (by simpa using hne)]
    rw [snakeFrom, hpiece]
    exact congrArg (c :: ·) (ih hrest hcs _)

/-! ## The start of a name -/

/-- Does the name begin with underscores that a capital follows? -/
def hidesCapital (cs : List Char) : Bool :=
  cs.head? = some '_' && (cs.dropWhile (· = '_')).head?.any Char.isUpper

/-- Nothing is written for the underscores at the start of a name. -/
theorem snakeFrom_dropWhile (cs : List Char) :
    snakeFrom (some '_') none cs = snakeFrom (some '_') none (cs.dropWhile (· = '_')) := by
  induction cs with
  | nil => rfl
  | cons c cs ih =>
    by_cases hc : c = '_'
    · subst hc
      rw [List.dropWhile_cons_of_pos (by decide), ← ih]
      rfl
    · rw [List.dropWhile_cons_of_neg (by simpa using hc)]

/-- The first character that is written: an underscore comes before it exactly if the character is a
capital and something stood in front of it. -/
theorem snakePiece_start {prev : Option Char} (hprev : ∀ p ∈ prev, isUpper p = false) {c : Char}
    (hc : isWordRest c = true) (hne : c ≠ '_') (rest : List Char) :
    ∃ d, isSmall d = true ∧ snakePiece prev none c rest =
      (if prev.isSome && c.isUpper then ['_'] else []) ++ [d] := by
  rw [snakePiece, lowerOf_eq hc, isUpper_eq hc]
  cases hupper : c.isUpper with
  | true =>
    have hsmall := isSmall_toLower hc ((isUpper_eq hc).trans hupper)
    cases prev with
    | none => exact ⟨_, hsmall, rfl⟩
    | some p =>
      have hstarts : startsWord p rest = true := by
        rw [startsWord, hprev p rfl]
        rfl
      refine ⟨_, hsmall, ?_⟩
      simp [hstarts]
  | false =>
    have hsmall := isSmall_of_isWordRest hc ((isUpper_eq hc).trans hupper) hne
    refine ⟨c, hsmall, ?_⟩
    simp [hne]

/-! ## Whole names -/

/-- Trimming does not reach beyond a character that is no underscore. -/
theorem trimUnderscores_append_cons (cs : List Char) {d : Char} (hd : d ≠ '_') (tail : List Char) :
    trimUnderscores (cs ++ d :: tail) = cs ++ d :: trimUnderscores tail := by
  rw [trimUnderscores, trimUnderscores, List.reverse_append, List.reverse_cons, List.append_assoc,
    List.singleton_append, List.dropWhile_append,
    List.dropWhile_cons_of_neg (by simpa using hd)]
  split
  · rename_i hempty
    rw [List.isEmpty_iff.mp hempty]
    simp
  · simp

theorem smooth_cons_trimUnderscores {d : Char} (hd : isSmall d = true) {tail : List Char}
    (hapart : (d :: tail).IsChain Apart) (hchars : ∀ c ∈ tail, isSmall c = true ∨ c = '_') :
    Smooth (d :: trimUnderscores tail) := by
  have hsplit : trimUnderscores tail ++ tail.rtakeWhile (· = '_') = tail :=
    List.rdropWhile_append_rtakeWhile
  have hsub : ∀ c ∈ trimUnderscores tail, c ∈ tail := fun c hc =>
    hsplit ▸ List.mem_append_left _ hc
  rw [← hsplit, ← List.cons_append] at hapart
  refine ⟨List.forall_mem_cons.mpr ⟨.inl hd, fun c hc => hchars c (hsub c hc)⟩,
    hapart.left_of_append, fun h => ne_underscore_of_isSmall hd (Option.some.inj h), fun h => ?_⟩
  rw [List.getLast?_cons] at h
  cases htrim : trimUnderscores tail with
  | nil =>
    rw [htrim] at h
    exact ne_underscore_of_isSmall hd (Option.some.inj h)
  | cons c cs =>
    have hne : trimUnderscores tail ≠ [] := by simp [htrim]
    have hlast := List.rdropWhile_last_not (· = '_') tail hne
    rw [List.getLast?_eq_some_getLast hne] at h
    exact hlast (decide_eq_true (Option.some.inj h))

/-- **The snake case of a word** is in snake form, but for one underscore in front of it if the word
hides a capital behind underscores. -/
theorem snakeChars_eq {cs : List Char} (h : Wordly cs) :
    ∃ form, Smooth form ∧ (hidesCapital cs = true → form ≠ []) ∧
      snakeChars cs = (if hidesCapital cs then ['_'] else []) ++ form := by
  have hstart : ∃ prev : Option Char, prev.isSome = decide (cs.head? = some '_') ∧
      (∀ p ∈ prev, isUpper p = false) ∧
      snakeFrom none none cs = snakeFrom prev none (cs.dropWhile (· = '_')) := by
    cases cs with
    | nil => exact ⟨none, by decide, by simp, rfl⟩
    | cons c cs =>
      by_cases hc : c = '_'
      · subst hc
        refine ⟨some '_', by simp, by simpa using by decide, ?_⟩
        rw [List.dropWhile_cons_of_pos (by decide), ← snakeFrom_dropWhile]
        rfl
      · refine ⟨none, by simpa using hc, by simp, ?_⟩
        rw [List.dropWhile_cons_of_neg (by simpa using hc)]
  obtain ⟨prev, hsome, hprev, hfrom⟩ := hstart
  rw [snakeChars, hfrom, hidesCapital, ← hsome]
  cases hrest : cs.dropWhile (· = '_') with
  | nil =>
    rw [List.head?_nil, Option.any_none, Bool.and_false]
    exact ⟨[], smooth_of_word (List.forall_mem_nil _), fun h => absurd h Bool.false_ne_true, rfl⟩
  | cons c rest =>
    have hsub : ∀ d ∈ c :: rest, isWordRest d = true := fun d hd =>
      h d ((List.dropWhile_sublist _).mem (hrest ▸ hd))
    obtain ⟨hc, hrestWord⟩ := List.forall_mem_cons.mp hsub
    have hne : c ≠ '_' := by
      have hend := List.head?_dropWhile_not (· = '_') cs
      rw [hrest] at hend
      simpa using hend
    obtain ⟨d, hd, hpiece⟩ := snakePiece_start hprev hc hne rest
    obtain ⟨hapart, hchars⟩ := snakeFrom_apart hrestWord (some c) d
    refine ⟨_, smooth_cons_trimUnderscores hd hapart hchars, fun _ => List.cons_ne_nil _ _, ?_⟩
    rw [snakeFrom, hpiece]
    simp only [List.getLast?_append, List.getLast?_singleton, Option.some_or, List.append_assoc,
      List.singleton_append, List.head?_cons, Option.any_some]
    exact trimUnderscores_append_cons _ (ne_underscore_of_isSmall hd) _

/-- A smooth text has nothing to trim. -/
theorem trimUnderscores_of_smooth {cs : List Char} (h : Smooth cs) : trimUnderscores cs = cs := by
  refine List.rdropWhile_eq_self_iff.mpr fun hne hlast => h.last ?_
  rw [List.getLast?_eq_some_getLast hne, of_decide_eq_true hlast]
  rfl

/-- What is in snake form stays as it is, also if an underscore stands in front of it. -/
theorem snakeFrom_of_smooth {cs : List Char} (h : Smooth cs) (prev : Option Char) :
    snakeFrom prev none cs = cs := by
  cases cs with
  | nil => rfl
  | cons c cs =>
    obtain ⟨hc, hcs⟩ := List.forall_mem_cons.mp h.chars
    have hsmall : isSmall c = true := hc.resolve_right fun heq => h.head (heq ▸ rfl)
    have hpiece : snakePiece prev none c cs = [c] := by
      rw [snakePiece, if_neg (by simp [isUpper_of_isSmall hsmall]),
        if_neg (ne_underscore_of_isSmall hsmall)]
    rw [snakeFrom, hpiece]
    exact congrArg (c :: ·) (snakeFrom_of_apart h.apart hcs _)

/-- A smooth text is in snake case. -/
theorem snakeChars_of_smooth {cs : List Char} (h : Smooth cs) : snakeChars cs = cs := by
  rw [snakeChars, snakeFrom_of_smooth h, trimUnderscores_of_smooth h]

theorem snakeChars_underscore_cons {cs : List Char} (h : Smooth cs) :
    snakeChars ('_' :: cs) = cs := by
  have hskip : snakeFrom none none ('_' :: cs) = snakeFrom (some '_') none cs := rfl
  rw [snakeChars, hskip, snakeFrom_of_smooth h, trimUnderscores_of_smooth h]

theorem toList_snake (name : String) : (snake name).toList = snakeChars name.toList := by
  rw [snake, String.toList_ofList]

theorem snake_snake (name : String) :
    snake (snake name) = String.ofList (snakeChars (snakeChars name.toList)) := by
  rw [snake, toList_snake]

/-- Names that hide no capital have a snake case in snake form, which stays as it is. -/
theorem snakeForm_of_not_hidesCapital {name : String} (hname : isWord name = true)
    (h : hidesCapital name.toList = false) :
    SnakeForm (snake name).toList ∧ snake (snake name) = snake name := by
  obtain ⟨form, hform, -, heq⟩ := snakeChars_eq (wordly_of_isWord hname)
  rw [h, if_neg Bool.false_ne_true, List.nil_append] at heq
  rw [toList_snake, snake_snake, heq, snakeChars_of_smooth hform, snake, heq]
  exact ⟨snakeForm_iff_smooth.mpr hform, rfl⟩

/-- All other names have one in snake form behind an underscore, and lose the underscore the next
time. -/
theorem exists_snake_of_hidesCapital {name : String} (hname : isWord name = true)
    (h : hidesCapital name.toList = true) :
    ∃ form, SnakeForm form.toList ∧ form ≠ "" ∧ snake name = "_" ++ form ∧
      snake (snake name) = form := by
  obtain ⟨form, hform, hne, heq⟩ := snakeChars_eq (wordly_of_isWord hname)
  rw [h, if_pos rfl, List.singleton_append] at heq
  refine ⟨String.ofList form, ?_, fun hempty => hne h ?_, ?_, ?_⟩
  · rw [String.toList_ofList]
    exact snakeForm_iff_smooth.mpr hform
  · have htoList := congrArg String.toList hempty
    rwa [String.toList_ofList] at htoList
  · rw [snake, heq, ← List.singleton_append, String.ofList_append]
  · rw [snake_snake, heq, snakeChars_underscore_cons hform]

/-- **When the snake case of a word is in snake form.** -/
theorem snakeForm_snake_iff {name : String} (hname : isWord name = true) :
    SnakeForm (snake name).toList ↔ hidesCapital name.toList = false := by
  refine ⟨fun hform => ?_, fun h => (snakeForm_of_not_hidesCapital hname h).1⟩
  refine Bool.eq_false_iff.mpr fun hhides => ?_
  obtain ⟨form, -, -, heq, -⟩ := exists_snake_of_hidesCapital hname hhides
  rw [heq, String.toList_append] at hform
  exact (snakeForm_iff_smooth.mp hform).head rfl

/-- **Snake case is stable** for the words in which no capital is hidden. -/
theorem snake_snake_eq_iff {name : String} (hname : isWord name = true) :
    snake (snake name) = snake name ↔ hidesCapital name.toList = false := by
  refine ⟨fun hsame => ?_, fun h => (snakeForm_of_not_hidesCapital hname h).2⟩
  refine Bool.eq_false_iff.mpr fun hhides => ?_
  obtain ⟨form, -, -, heq, hagain⟩ := exists_snake_of_hidesCapital hname hhides
  rw [hagain, heq] at hsame
  have hlength := congrArg (fun s => s.toList.length) hsame
  rw [String.toList_append, List.length_append] at hlength
  exact absurd hlength (by simp)

end Naming

open Naming

/-! ## Names of files -/

/-- The stem of a schema's files begins with a small letter or a digit, unless the schema's name
hides a capital. -/
theorem isSmall_stem_iff {s : Schema} (hs : s.Worded) :
    (∃ c ∈ (GeneratedFile.stem s).toList.head?, isSmall c = true) ↔
      hidesCapital s.name.toList = false := by
  rw [GeneratedFile.stem]
  split
  · rename_i hempty
    refine iff_of_true ⟨'p', rfl, rfl⟩ (Bool.eq_false_iff.mpr fun hhides => ?_)
    obtain ⟨form, -, -, heq, -⟩ := exists_snake_of_hidesCapital hs.name hhides
    rw [heq, String.isEmpty_iff] at hempty
    have hnil := congrArg String.toList hempty
    rw [String.toList_append] at hnil
    cases hnil
  · rename_i hne
    refine ⟨?_, fun h => ?_⟩
    · rintro ⟨c, hc, hsmall⟩
      refine Bool.eq_false_iff.mpr fun hhides => ?_
      obtain ⟨form, -, -, heq, -⟩ := exists_snake_of_hidesCapital hs.name hhides
      rw [heq, String.toList_append] at hc
      exact ne_underscore_of_isSmall hsmall (Option.some.inj hc).symm
    · have hsmooth := snakeForm_iff_smooth.mp (snakeForm_of_not_hidesCapital hs.name h).1
      cases hchars : (snake s.name).toList with
      | nil =>
        refine absurd (String.isEmpty_iff.mpr ?_) hne
        exact String.toList_inj.mp hchars
      | cons c cs =>
        rw [hchars] at hsmooth
        refine ⟨c, rfl, (hsmooth.chars c List.mem_cons_self).resolve_right fun heq => ?_⟩
        exact hsmooth.head (heq ▸ rfl)

theorem stem_ne_nil (s : Schema) : (GeneratedFile.stem s).toList ≠ [] := by
  rw [GeneratedFile.stem]
  split
  · exact List.cons_ne_nil _ _
  · rename_i hne
    exact fun hnil => hne (String.isEmpty_iff.mpr (String.toList_inj.mp hnil))

/-- The files of a target begin like their stem. -/
theorem head?_of_mem_fileNames {target : Target} {s : Schema} {name : String}
    (h : name ∈ target.fileNames s) : name.toList.head? = (GeneratedFile.stem s).toList.head? := by
  have happend : ∀ suffix : String,
      (GeneratedFile.stem s ++ suffix).toList.head? = (GeneratedFile.stem s).toList.head? := by
    intro suffix
    rw [String.toList_append, List.head?_append_of_ne_nil _ (stem_ne_nil s)]
  cases target with
  | go package =>
    rcases List.mem_cons.mp h with rfl | h
    · exact happend _
    · obtain rfl := List.mem_singleton.mp h
      exact happend _
  | javaScript bigint =>
    obtain rfl := List.mem_singleton.mp h
    exact happend _

/-- **Snake case is a normal form for the words that hide no capital**, and for no others: exactly
for these it is in snake form, and exactly for these it stays as it is when it is taken again. Any
other word has a snake form behind one underscore. So the files of a schema of that name have plain
names, and these begin with a small letter or a digit exactly if the name hides no capital. -/
theorem Naming.snake_normal_iff_hides_no_capital {name : String} (hname : Text.isWord name = true) :
    (SnakeForm (snake name).toList ↔ hidesCapital name.toList = false) ∧
      (snake (snake name) = snake name ↔ hidesCapital name.toList = false) ∧
      (hidesCapital name.toList = true →
        ∃ form, SnakeForm form.toList ∧ form ≠ "" ∧ snake name = "_" ++ form) ∧
      ∀ mode text s, Schema.ofText mode text = .ok s → s.name = name →
        ∀ (target : Target) files, target.generate s = .ok files → ∀ f ∈ files,
          IsPlainName f.path ∧ ((∃ c ∈ f.path.toList.head?, isSmall c = true) ↔
            hidesCapital name.toList = false) := by
  refine ⟨snakeForm_snake_iff hname, snake_snake_eq_iff hname, fun hhides => ?_, ?_⟩
  · obtain ⟨form, hform, hne, heq, -⟩ := exists_snake_of_hidesCapital hname hhides
    exact ⟨form, hform, hne, heq⟩
  · rintro mode text s h rfl target files hfiles f hf
    have hs := Schema.ofText_worded h
    have hpath : f.path ∈ target.fileNames s :=
      paths_of_generate hfiles ▸ List.mem_map_of_mem hf
    rw [head?_of_mem_fileNames hpath]
    exact ⟨plain_of_mem_fileNames hs hpath, isSmall_stem_iff hs⟩

/-- A capital behind an underscore gets an underscore of its own, so the snake case of the name is
not in snake form, changes when it is taken again, and makes files whose names begin with an
underscore. -/
theorem Naming.snake_underscore_capital :
    Text.isWord "_A" = true ∧ snake "_A" = "_a" ∧ ¬ SnakeForm (snake "_A").toList ∧
      snake (snake "_A") = "a" ∧
      ∃ s files, Schema.ofText .failFast "name _A;" = .ok s ∧
        Target.generate (.go "main") s = .ok files ∧
        files.map GeneratedFile.path = ["_a_ango.go", "_a_ango_codec.go"] := by
  have hword : Text.isWord "_A" = true := by decide +kernel
  have hhides : hidesCapital "_A".toList = true := by decide +kernel
  have hform : ¬ SnakeForm (snake "_A").toList := by
    rw [snakeForm_snake_iff hword, hhides]
    exact Bool.noConfusion
  have hrun : ∃ s ∈ (Schema.ofText .failFast "name _A;").toOption,
      (Target.generate (.go "main") s).toOption.isSome ∧
        Target.fileNames s (.go "main") = ["_a_ango.go", "_a_ango_codec.go"] := by
    decide +kernel
  obtain ⟨s, hs, hfiles, hnames⟩ := hrun
  obtain ⟨files, hfiles⟩ := Option.isSome_iff_exists.mp hfiles
  have hgenerate := eq_ok_of_mem_toOption hfiles
  exact ⟨hword, by decide +kernel, hform, by decide +kernel, s, files, eq_ok_of_mem_toOption hs,
    hgenerate, (paths_of_generate hgenerate).trans hnames⟩

/-- A name with an acronym and digits behind underscores, and the files of a schema of that name. -/
theorem Naming.acronym_snake_normal :
    SnakeForm (snake "__x9HTTPServer_2_").toList ∧
      snake (snake "__x9HTTPServer_2_") = snake "__x9HTTPServer_2_" ∧
      ∃ s files, Schema.ofText .collect "name __x9HTTPServer_2_;" = .ok s ∧
        Target.generate (.javaScript true) s = .ok files ∧ files ≠ [] ∧
        ∀ f ∈ files, IsPlainName f.path ∧ ∃ c ∈ f.path.toList.head?, isSmall c = true := by
  have hword : Text.isWord "__x9HTTPServer_2_" = true := by decide +kernel
  have hhides : hidesCapital "__x9HTTPServer_2_".toList = false := by decide +kernel
  have hrun : ∃ s ∈ (Schema.ofText .collect "name __x9HTTPServer_2_;").toOption,
      s.name = "__x9HTTPServer_2_" ∧ (Target.generate (.javaScript true) s).toOption.isSome := by
    decide +kernel
  obtain ⟨s, hs, hname, hfiles⟩ := hrun
  obtain ⟨files, hfiles⟩ := Option.isSome_iff_exists.mp hfiles
  have htext := eq_ok_of_mem_toOption hs
  have hgenerate := eq_ok_of_mem_toOption hfiles
  obtain ⟨hform, hsame, -, hplain⟩ := Naming.snake_normal_iff_hides_no_capital hword
  refine ⟨hform.mpr hhides, hsame.mpr hhides, s, files, htext, hgenerate, ?_, fun f hf => ?_⟩
  · rintro rfl
    cases paths_of_generate hgenerate
  · obtain ⟨hpath, hsmall⟩ := hplain _ _ _ htext hname _ _ hgenerate f hf
    exact ⟨hpath, hsmall.mpr hhides⟩

end WireSchema
