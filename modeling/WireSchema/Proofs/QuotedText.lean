import WireSchema.Proofs.Accepted
import WireSchema.Proofs.Segmentation

/-!
# Quoted text reads back

`Text.quote` writes one spelling for three readers. For JSON there is a reader of its own here
(`Json.decode?`), with all that the format allows: short escapes, code units, surrogate pairs. The
schema language knows fewer escapes: it cuts every quoted text out as one string token, and reads
back those whose control characters are tabs, newlines and carriage returns (`Readable`).

All three are led back to one fact about a single character, what it is written as (`escape_cases`).
The targets write string constants with `quote` as well, so that a literal from a generated file may
be put back into a schema text.
-/

namespace WireSchema

open Segment Text

/-! ## JSON strings -/

namespace Json

/-- The value of a hexadecimal digit. -/
def hexDigit? (c : Char) : Option Nat :=
  if 0x30 ≤ c.toNat ∧ c.toNat ≤ 0x39 then some (c.toNat - 0x30)
  else if 0x61 ≤ c.toNat ∧ c.toNat ≤ 0x66 then some (c.toNat - 0x57)
  else if 0x41 ≤ c.toNat ∧ c.toNat ≤ 0x46 then some (c.toNat - 0x37)
  else none

/-- The UTF-16 code unit that four digits spell, and what follows them. -/
def codeUnit? : List Char → Option (Nat × List Char)
  | a :: b :: c :: d :: rest => do
    let a ← hexDigit? a
    let b ← hexDigit? b
    let c ← hexDigit? c
    let d ← hexDigit? d
    return (0x1000 * a + 0x100 * b + 0x10 * c + d, rest)
  | _ => none

/-- The character that stands behind `\u`: a code unit, or the two of a surrogate pair. Surrogates
that stand alone are refused. -/
def unicode? (cs : List Char) : Option (Char × List Char) :=
  match codeUnit? cs with
  | none => none
  | some (high, rest) =>
    if high < 0xD800 ∨ 0xDFFF < high then some (Char.ofNat high, rest)
    else if 0xDC00 ≤ high then none
    else
      match rest with
      | '\\' :: 'u' :: rest =>
        match codeUnit? rest with
        | none => none
        | some (low, rest) =>
          if 0xDC00 ≤ low ∧ low ≤ 0xDFFF then
            some (Char.ofNat (0x10000 + 0x400 * (high - 0xD800) + (low - 0xDC00)), rest)
          else none
      | _ => none

/-- The short escapes: the letter after the backslash, and what it stands for. -/
def escapes : List (Char × Char) :=
  [('"', '"'), ('\\', '\\'), ('/', '/'), ('b', '\x08'), ('f', '\x0c'), ('n', '\n'), ('r', '\r'),
    ('t', '\t')]

/-- The character that the body of a string starts with, and what follows its spelling. -/
def character? : List Char → Option (Char × List Char)
  | [] => none
  | '\\' :: 'u' :: rest => unicode? rest
  | '\\' :: letter :: rest => (escapes.lookup letter).map (·, rest)
  | c :: rest => if c = '"' ∨ c = '\\' ∨ c.toNat < 0x20 then none else some (c, rest)

/-- Reading a code unit takes characters. -/
theorem codeUnit?_length {cs rest : List Char} {unit : Nat} (h : codeUnit? cs = some (unit, rest)) :
    rest.length < cs.length := by
  unfold codeUnit? at h
  split at h
  · simp only [Option.bind_eq_bind, Option.bind_eq_some_iff, Option.pure_def, Option.some.injEq,
      Prod.mk.injEq] at h
    obtain ⟨_, _, _, _, _, _, _, _, _, rfl⟩ := h
    simp only [List.length_cons]
    omega
  · cases h

theorem unicode?_length {cs rest : List Char} {c : Char} (h : unicode? cs = some (c, rest)) :
    rest.length < cs.length := by
  unfold unicode? at h
  split at h
  · cases h
  rename_i high behind hhigh
  have hlength := codeUnit?_length hhigh
  split_ifs at h
  · obtain ⟨-, rfl⟩ := Prod.mk.inj (Option.some.inj h)
    exact hlength
  split at h
  · split at h
    · cases h
    rename_i low after hlow
    have hlength' := codeUnit?_length hlow
    split_ifs at h
    obtain ⟨-, rfl⟩ := Prod.mk.inj (Option.some.inj h)
    simp only [List.length_cons] at hlength
    omega
  · cases h

/-- Reading a character takes some, so reading a body comes to an end. -/
theorem character?_length {cs rest : List Char} {c : Char} (h : character? cs = some (c, rest)) :
    rest.length < cs.length := by
  unfold character? at h
  split at h
  · cases h
  · have hlength := unicode?_length h
    simp only [List.length_cons]
    omega
  · obtain ⟨_, -, hrest⟩ := Option.map_eq_some_iff.mp h
    obtain ⟨-, rfl⟩ := Prod.mk.inj hrest
    simp only [List.length_cons]
    omega
  · split_ifs at h
    obtain ⟨-, rfl⟩ := Prod.mk.inj (Option.some.inj h)
    exact Nat.lt_succ_self _

/-- The characters up to the closing quote, which has to be the last character. -/
def body? (cs : List Char) : Option (List Char) :=
  if cs = ['"'] then some []
  else
    match h : character? cs with
    | none => none
    | some (c, rest) =>
      have := character?_length h
      (body? rest).map (c :: ·)
termination_by cs.length

/-- The text that a JSON string stands for. -/
def decode? (text : String) : Option String :=
  match text.toList with
  | '"' :: cs => (body? cs).map String.ofList
  | _ => none

/-- A body is its first character and the others. -/
theorem body?_of_character? {cs rest : List Char} {c : Char} (h : character? cs = some (c, rest)) :
    body? cs = (body? rest).map (c :: ·) := by
  have hquote : cs ≠ ['"'] := by
    rintro rfl
    cases h
  rw [body?, if_neg hquote]
  split
  · rename_i hnone
    cases hnone.symm.trans h
  · rename_i c' rest' hsome
    obtain ⟨rfl, rfl⟩ := Prod.mk.inj (Option.some.inj (hsome.symm.trans h))
    rfl

/-- A hexadecimal digit can be read back. -/
theorem hexDigit?_digitChar : ∀ n < 16, hexDigit? (Nat.digitChar n) = some n := by
  decide

end Json

/-! ## What a character is written as -/

namespace Text

/-- A character stands for itself, behind a backslash, or as the code unit that it is. -/
theorem escape_cases (c : Char) :
    (escape c = [c] ∧ c ≠ '"' ∧ c ≠ '\\' ∧ 0x20 ≤ c.toNat) ∨
    (∃ letter, (letter, c) ∈ Json.escapes ∧ letter ≠ '/' ∧ escape c = ['\\', letter]) ∨
    (c.toNat < 0x20 ∧ c ≠ '\t' ∧ c ≠ '\n' ∧ c ≠ '\r' ∧ escape c =
      ['\\', 'u', '0', '0', Nat.digitChar (c.toNat / 16), Nat.digitChar (c.toNat % 16)]) := by
  by_cases hletter : ∃ letter, (letter, c) ∈ Json.escapes ∧ letter ≠ '/'
  · obtain ⟨letter, hmem, hslash⟩ := hletter
    refine .inr (.inl ⟨letter, hmem, hslash, ?_⟩)
    simp only [Json.escapes, List.mem_cons, Prod.mk.injEq, List.not_mem_nil, or_false] at hmem
    rcases hmem with ⟨rfl, rfl⟩ | ⟨rfl, rfl⟩ | ⟨rfl, rfl⟩ | ⟨rfl, rfl⟩ | ⟨rfl, rfl⟩ | ⟨rfl, rfl⟩ |
      ⟨rfl, rfl⟩ | ⟨rfl, rfl⟩
    all_goals first | rfl | exact absurd rfl hslash
  · have hne : ∀ letter d, (letter, d) ∈ Json.escapes → letter ≠ '/' → c ≠ d := by
      rintro letter d hmem hslash rfl
      exact hletter ⟨letter, hmem, hslash⟩
    have hquote := hne '"' '"' (by decide) (by decide)
    have hbackslash := hne '\\' '\\' (by decide) (by decide)
    have hnewline := hne 'n' '\n' (by decide) (by decide)
    have hreturn := hne 'r' '\r' (by decide) (by decide)
    have htab := hne 't' '\t' (by decide) (by decide)
    rw [escape, if_neg hquote, if_neg hbackslash, if_neg (hne 'b' _ (by decide) (by decide)),
      if_neg (hne 'f' _ (by decide) (by decide)), if_neg hnewline, if_neg hreturn, if_neg htab]
    by_cases hcontrol : c.toNat < 0x20
    · rw [if_pos hcontrol]
      exact .inr (.inr ⟨hcontrol, htab, hnewline, hreturn, rfl⟩)
    · rw [if_neg hcontrol]
      exact .inl ⟨rfl, hquote, hbackslash, Nat.le_of_not_lt hcontrol⟩

/-- JSON reads a character back. -/
theorem character?_escape (c : Char) (rest : List Char) :
    Json.character? (escape c ++ rest) = some (c, rest) := by
  rcases escape_cases c with ⟨heq, hquote, hbackslash, hle⟩ | ⟨letter, hmem, -, heq⟩ |
    ⟨hlt, -, -, -, heq⟩
  · rw [heq, List.cons_append, List.nil_append, Json.character?]
    · simp [hquote, hbackslash, Nat.not_lt.mpr hle]
    · exact fun _ hc => absurd hc hbackslash
    · exact fun _ _ hc => absurd hc hbackslash
  · rw [heq]
    simp only [Json.escapes, List.mem_cons, Prod.mk.injEq, List.not_mem_nil, or_false] at hmem
    rcases hmem with ⟨rfl, rfl⟩ | ⟨rfl, rfl⟩ | ⟨rfl, rfl⟩ | ⟨rfl, rfl⟩ | ⟨rfl, rfl⟩ | ⟨rfl, rfl⟩ |
      ⟨rfl, rfl⟩ | ⟨rfl, rfl⟩
    all_goals rfl
  · have hhigh := Json.hexDigit?_digitChar (c.toNat / 16) (by omega)
    have hlow := Json.hexDigit?_digitChar (c.toNat % 16) (by omega)
    have hzero : Json.hexDigit? '0' = some 0 := by decide
    have hunit : Json.codeUnit? ('0' :: '0' :: Nat.digitChar (c.toNat / 16) ::
        Nat.digitChar (c.toNat % 16) :: rest) = some (c.toNat, rest) := by
      simp [Json.codeUnit?, hzero, hhigh, hlow]
      omega
    rw [heq]
    simp only [List.cons_append, List.nil_append, Json.character?, Json.unicode?, hunit]
    rw [if_pos (.inl (by omega)), Char.ofNat_toNat]

/-- Nothing in an escaped character is a control character. -/
theorem le_of_mem_escape {c d : Char} (h : d ∈ escape c) : 0x20 ≤ d.toNat := by
  have hletters : ∀ e ∈ Json.escapes, 0x20 ≤ e.1.toNat := by decide
  have hdigits : ∀ n < 16, 0x20 ≤ (Nat.digitChar n).toNat := by decide
  rcases escape_cases c with ⟨heq, -, -, hle⟩ | ⟨letter, hmem, -, heq⟩ | ⟨hlt, -, -, -, heq⟩
  · rw [heq, List.mem_singleton] at h
    rwa [h]
  · rw [heq, List.mem_pair] at h
    rcases h with rfl | rfl
    · decide
    · exact hletters _ hmem
  · simp only [heq, List.mem_cons, List.not_mem_nil, or_false] at h
    rcases h with rfl | rfl | rfl | rfl | rfl | rfl
    · decide
    · decide
    · decide
    · decide
    · exact hdigits _ (by omega)
    · exact hdigits _ (by omega)

/-- A quote that belongs to the text has a backslash before it. -/
theorem stringBody_escape (c : Char) {body : List Char} (h : StringBody body) :
    StringBody (escape c ++ body) := by
  have hletters : ∀ e ∈ Json.escapes, e.1 ≠ '\n' := by decide
  have hdigits : ∀ n < 16, Nat.digitChar n ≠ '"' ∧ Nat.digitChar n ≠ '\\' ∧
      Nat.digitChar n ≠ '\n' := by decide
  rcases escape_cases c with ⟨heq, hquote, hbackslash, hle⟩ | ⟨letter, hmem, -, heq⟩ |
    ⟨hlt, -, -, -, heq⟩
  · rw [heq]
    refine .plain hquote hbackslash ?_ h
    rintro rfl
    exact absurd hle (by decide)
  · rw [heq]
    exact .escape (hletters _ hmem) h
  · obtain ⟨hquote, hbackslash, hnewline⟩ := hdigits (c.toNat / 16) (by omega)
    obtain ⟨hquote', hbackslash', hnewline'⟩ := hdigits (c.toNat % 16) (by omega)
    have htail :=
      StringBody.plain hquote hbackslash hnewline (.plain hquote' hbackslash' hnewline' h)
    rw [heq]
    exact .escape (by decide) (.plain (by decide) (by decide) (by decide)
      (.plain (by decide) (by decide) (by decide) htail))

/-- An escaped text is the body of a string token. -/
theorem stringBody_flatMap_escape (cs : List Char) : StringBody (cs.flatMap escape) := by
  induction cs with
  | nil => exact .nil
  | cons c cs ih =>
    rw [List.flatMap_cons]
    exact stringBody_escape c ih

/-- **JSON reads quoted text back.** -/
theorem decode?_quote (text : String) : Json.decode? (quote text) = some text := by
  have hbody : ∀ cs : List Char, Json.body? (cs.flatMap escape ++ ['"']) = some cs := by
    intro cs
    induction cs with
    | nil => rw [List.flatMap_nil, List.nil_append, Json.body?, if_pos rfl]
    | cons c cs ih =>
      rw [List.flatMap_cons, List.append_assoc, Json.body?_of_character? (character?_escape c _),
        ih]
      rfl
  rw [Json.decode?, toList_quote, quoteChars]
  change (Json.body? _).map String.ofList = _
  rw [hbody, Option.map_some, String.ofList_toList]

/-- **Different texts are quoted differently.** -/
theorem quote_injective {text text' : String} (h : quote text = quote text') : text = text' := by
  have hread := decode?_quote text
  rw [h, decode?_quote] at hread
  exact (Option.some.inj hread).symm

/-- A quoted text has no control character. -/
theorem le_of_mem_quote {text : String} {c : Char} (h : c ∈ (quote text).toList) :
    0x20 ≤ c.toNat := by
  rw [toList_quote, quoteChars, List.mem_cons, List.mem_append, List.mem_singleton] at h
  rcases h with rfl | h | rfl
  · decide
  · obtain ⟨d, -, hd⟩ := List.mem_flatMap.mp h
    exact le_of_mem_escape hd
  · decide

/-! ## String tokens -/

/-- The schema language can write the character. -/
def IsReadable (c : Char) : Prop :=
  0x20 ≤ c.toNat ∨ c = '\t' ∨ c = '\n' ∨ c = '\r'

instance (c : Char) : Decidable (IsReadable c) :=
  inferInstanceAs (Decidable (_ ∨ _))

/-- The text has no control character but tabs, newlines and carriage returns. -/
def Readable (text : String) : Prop :=
  ∀ c ∈ text.toList, IsReadable c

instance (text : String) : Decidable (Readable text) :=
  List.decidableBAll IsReadable text.toList

/-- The schema language reads a character back if it knows the escape. -/
theorem unescape_escape {c : Char} (h : IsReadable c) (rest : List Char) :
    Parser.unescape (escape c ++ rest) = (Parser.unescape rest).map (c :: ·) := by
  have hletters : ∀ e ∈ Json.escapes, e.1 ≠ '/' → IsReadable e.2 →
      Parser.escaped? e.1 = some e.2 := by decide
  rcases escape_cases c with ⟨heq, -, hbackslash, -⟩ | ⟨letter, hmem, hslash, heq⟩ |
    ⟨hlt, htab, hnewline, hreturn, -⟩
  · rw [heq, List.cons_append, List.nil_append, Parser.unescape]
    · exact fun hc => absurd hc hbackslash
    · exact fun _ _ hc => absurd hc hbackslash
  · rw [heq, List.cons_append, List.cons_append, List.nil_append, Parser.unescape,
      hletters _ hmem hslash h]
  · rcases h with hle | rfl | rfl | rfl
    · omega
    · exact absurd rfl htab
    · exact absurd rfl hnewline
    · exact absurd rfl hreturn

/-- Otherwise it refuses the escape. -/
theorem unescape_escape_error {c : Char} (h : ¬ IsReadable c) (rest : List Char) :
    Parser.unescape (escape c ++ rest) = .error ((escape c).take 2) := by
  have hletters : ∀ e ∈ Json.escapes, e.1 ≠ '/' → ¬ IsReadable e.2 →
      Parser.escaped? e.1 = none := by decide
  have hunit : Parser.escaped? 'u' = none := by decide
  rcases escape_cases c with ⟨-, -, -, hle⟩ | ⟨letter, hmem, hslash, heq⟩ | ⟨-, -, -, -, heq⟩
  · exact absurd (.inl hle) h
  · rw [heq, List.cons_append, List.cons_append, List.nil_append, Parser.unescape,
      hletters _ hmem hslash h]
    rfl
  · rw [heq, List.cons_append, List.cons_append, Parser.unescape, hunit]
    rfl

/-- A text of readable characters is read back. -/
theorem unescape_flatMap_escape {cs : List Char} (h : ∀ c ∈ cs, IsReadable c) :
    Parser.unescape (cs.flatMap escape) = .ok cs := by
  induction cs with
  | nil => rfl
  | cons c cs ih =>
    obtain ⟨hc, hcs⟩ := List.forall_mem_cons.mp h
    rw [List.flatMap_cons, unescape_escape hc, ih hcs]
    rfl

/-- Any other text is refused. -/
theorem exists_unescape_flatMap_escape_error {cs : List Char} (h : ¬ ∀ c ∈ cs, IsReadable c) :
    ∃ spelling, Parser.unescape (cs.flatMap escape) = .error spelling := by
  induction cs with
  | nil => exact absurd (List.forall_mem_nil _) h
  | cons c cs ih =>
    rw [List.flatMap_cons]
    by_cases hc : IsReadable c
    · have hcs : ¬ ∀ d ∈ cs, IsReadable d := fun hcs => h (List.forall_mem_cons.mpr ⟨hc, hcs⟩)
      obtain ⟨spelling, herror⟩ := ih hcs
      rw [unescape_escape hc, herror]
      exact ⟨spelling, rfl⟩
    · exact ⟨_, unescape_escape_error hc _⟩

end Text

open Text

theorem Text.quote_inside (text : String) :
    (quote text).toList.tail.dropLast = text.toList.flatMap escape := by
  rw [toList_quote, quoteChars, List.tail_cons, List.dropLast_concat]

/-- The literal of a quoted text is the text, if it is readable. -/
theorem Parser.literalOf_quote {text : String} (h : Readable text) (location : Location) :
    Parser.literalOf ⟨.string, quote text, location⟩ = .ok (.string text) := by
  simp only [literalOf, stringOf, quote_inside, unescape_flatMap_escape h, String.ofList_toList]
  rfl

theorem Parser.literalOf_quote_error {text : String} (h : ¬ Readable text) (location : Location) :
    ∃ spelling,
      Parser.literalOf ⟨.string, quote text, location⟩ = .error (.invalidEscape spelling) := by
  obtain ⟨spelling, herror⟩ := exists_unescape_flatMap_escape_error h
  refine ⟨String.ofList spelling, ?_⟩
  simp only [literalOf, stringOf, quote_inside, herror]
  rfl

namespace Segment

/-- A quoted text is one segment, whatever follows it. -/
theorem split_quote_append (text : String) (rest : List Char) :
    split ((quote text).toList ++ rest) =
      ⟨.token .string, (quote text).toList⟩ :: split rest := by
  have hblank : isBlank '"' = false := by decide
  have hclose := closeString_of_stringBody (stringBody_flatMap_escape text.toList) rest
  rw [toList_quote, quoteChars, List.cons_append, split_cons]
  simp [first, hblank, hclose]

end Segment

/-- **A quoted text is one token.** -/
theorem TokenStream.ofText_quote (text : String) :
    TokenStream.ofText (quote text) =
      .ok ⟨[⟨.string, quote text, .start⟩], Location.start.advance (quote text).toList⟩ := by
  have hsplit := Segment.split_quote_append text []
  rw [List.append_nil, split_nil] at hsplit
  have htext : String.ofList (quote text).toList = quote text := String.ofList_toList
  rw [TokenStream.ofText]
  simp only [hsplit, locate, List.filterMap_cons, token?, diagnostic?, htext]
  rfl

/-! ## Putting a literal back -/

/-- The declaration of a string constant. -/
def stringDeclaration (name literal : String) : String :=
  "const " ++ name ++ ": string = " ++ literal ++ ";"

/-- Its tokens, without their locations. -/
def stringDeclarationTokens (name literal : String) : List Token :=
  [⟨.identifier, "const", .start⟩, ⟨.identifier, name, .start⟩, ⟨.symbol, ":", .start⟩,
    ⟨.identifier, "string", .start⟩, ⟨.symbol, "=", .start⟩, ⟨.string, literal, .start⟩,
    ⟨.symbol, ";", .start⟩]

namespace Segment

/-- A word is cut off where it ends. -/
theorem significant_split_word {word rest : List Char} (hword : isWordChars word = true)
    (hrest : ∀ c ∈ rest.head?, isWordRest c = false) :
    significant (split (word ++ rest)) =
      ⟨.token .identifier, word⟩ :: significant (split rest) := by
  cases word with
  | nil => cases hword
  | cons c cs =>
    rw [isWordChars, Bool.and_eq_true, List.all_eq_true] at hword
    rw [List.cons_append, split_cons, first_word_append hword.1 hword.2 hrest]
    rfl

theorem significant_split_symbol {c : Char} (hc : isPunctuation c = true) (rest : List Char) :
    significant (split (c :: rest)) = ⟨.token .symbol, [c]⟩ :: significant (split rest) := by
  have hfirst : first c rest = (⟨.token .symbol, [c]⟩, rest) := by
    simp only [isPunctuation, Bool.or_eq_true, decide_eq_true_eq] at hc
    rcases hc with (((rfl | rfl) | rfl) | rfl) | rfl <;> rfl
  rw [split_cons, hfirst]
  rfl

/-- A string constant is cut into its tokens, whatever follows. -/
theorem significant_split_stringDeclaration {name : String} (hname : isWord name = true)
    (text : String) (rest : List Char) :
    significant (split ((stringDeclaration name (quote text)).toList ++ rest)) =
      (stringDeclarationTokens name (quote text)).map ofToken ++ significant (split rest) := by
  have hchars : (stringDeclaration name (quote text)).toList ++ rest =
      "const".toList ++ ' ' :: (name.toList ++ ':' :: ' ' :: ("string".toList ++
        ' ' :: '=' :: ' ' :: ((quote text).toList ++ ';' :: rest))) := by
    simp [stringDeclaration]
  have hblank : ∀ rest : List Char, ∀ c ∈ (' ' :: rest).head?, isWordRest c = false := by
    rintro rest c hc
    obtain rfl := Option.some.inj hc
    decide
  have hcolon : ∀ rest : List Char, ∀ c ∈ (':' :: rest).head?, isWordRest c = false := by
    rintro rest c hc
    obtain rfl := Option.some.inj hc
    decide
  rw [hchars, significant_split_word (by decide) (hblank _), significant_split_blank (by decide),
    significant_split_word hname (hcolon _), significant_split_symbol (by decide),
    significant_split_blank (by decide), significant_split_word (by decide) (hblank _),
    significant_split_blank (by decide), significant_split_symbol (by decide),
    significant_split_blank (by decide), split_quote_append]
  change _ :: _ :: _ :: _ :: _ :: _ :: significant (split (';' :: rest)) = _
  rw [significant_split_symbol (by decide)]
  rfl

end Segment

/-- A string constant is read, whatever follows it. -/
theorem Parser.declarations_stringDeclaration {text : String} (h : Readable text) (mode : ErrorMode)
    (name : String) (ts : List Token) :
    declarations mode (stringDeclarationTokens name (quote text) ++ ts) =
      (.constant ⟨name, "string", .string text, .start⟩ :: (declarations mode ts).1,
        (declarations mode ts).2) := by
  have hword : Keyword.ofToken? ⟨.identifier, "const", .start⟩ = some .const := by decide
  have hconstant : (constant .start).run ((stringDeclarationTokens name (quote text)).tail ++ ts) =
      .ok (⟨name, "string", .string text, .start⟩, ts) := by
    simp only [constant, run_bind_eq_ok_iff, run_identifier_eq_ok_iff, run_symbol_eq_ok_iff,
      literal, run_token_eq_ok_iff, run_pure_eq_ok_iff]
    exact ⟨_, _, ⟨rfl, rfl⟩, _, _, ⟨rfl, by decide⟩, _, _, ⟨rfl, rfl⟩, _, _, ⟨rfl, by decide⟩, _, _,
      ⟨_, rfl, literalOf_quote h _⟩, _, _, ⟨rfl, by decide⟩, rfl⟩
  refine declarations_of_ok ?_
  rw [declaration, run_bind_eq_ok_iff]
  refine ⟨(.const, .start), _, run_token_eq_ok_iff.mpr ⟨_, rfl, by rw [hword]⟩, ?_⟩
  exact run_bind_eq_ok_iff.mpr ⟨_, ts, hconstant, rfl⟩

namespace Resolve

/-- The schema declares nothing of this name. -/
structure Unclaimed (name : String) (s : Schema) : Prop where
  constants : ∀ c ∈ s.constants, c.name ≠ name
  enums : ∀ e ∈ s.enums, e.name ≠ name
  messages : ∀ m ∈ s.messages, m.name ≠ name

/-- A name that is not claimed is not declared. -/
theorem Resolves.declares?_ne {ds : List Written.Declaration} {s : Schema} (h : Resolves ds s)
    {name : String} (hnew : Unclaimed name s) : ∀ d ∈ ds, declares? d ≠ some name := by
  intro d hd hname
  cases d with
  | name n => cases hname
  | constant w =>
    obtain rfl := Option.some.inj hname
    obtain ⟨c, hc, himage⟩ :=
      exists_of_mem_forall₂ h.constants.flip (Written.mem_constantsIn.mpr hd)
    exact hnew.constants c hc himage.name
  | enum w =>
    obtain rfl := Option.some.inj hname
    obtain ⟨e, he, himage⟩ := exists_of_mem_forall₂ h.enums.flip (Written.mem_enumsIn.mpr hd)
    exact hnew.enums e he himage.name
  | message w =>
    obtain rfl := Option.some.inj hname
    obtain ⟨m, hm, himage⟩ := exists_of_mem_forall₂ h.messages.flip (Written.mem_messagesIn.mpr hd)
    exact hnew.messages m hm himage.name

/-- A constant of a new name may stand in front of any declarations. -/
theorem Resolves.constant {ds : List Written.Declaration} {s : Schema} (h : Resolves ds s)
    {w : Written.Constant} {c : Constant} (hc : ConstantImage w c)
    (hfree : Primitive.ofName? w.name = none) (hnew : Unclaimed w.name s) :
    Resolves (.constant w :: ds) { s with constants := c :: s.constants } := by
  -- type words are looked up among messages and enums, so that no field notices the constant
  have hnames : Written.Names (.constant w :: ds) = Written.Names ds := by
    funext word type
    cases type <;> rfl
  refine ⟨?_, ?_, h.name, h.enums, hnames ▸ h.messages, .cons hc h.constants⟩
  · rw [List.map_cons, List.nodup_cons]
    refine ⟨fun hmem => ?_, h.distinct⟩
    obtain ⟨d, hd, hname⟩ := List.mem_map.mp hmem
    exact h.declares?_ne hnew d hd hname
  · refine List.forall_mem_cons.mpr ⟨?_, h.free⟩
    rintro name ⟨⟩
    exact hfree

end Resolve

/-- **A literal can be put back.** In front of an accepted text that does not declare its name, a
string constant with a quoted literal is read as that constant, and the text as before. -/
theorem Schema.exists_ofText_stringDeclaration {text : String} (h : Readable text) {name : String}
    (hword : isWord name = true) (hfree : Primitive.ofName? name = none) {mode : ErrorMode}
    {rest : String} {s : Schema} (hs : Schema.ofText mode rest = .ok s)
    (hnew : Resolve.Unclaimed name s) :
    ∃ s', Schema.ofText mode (stringDeclaration name (quote text) ++ rest) = .ok s' ∧
      s'.unlocated = { s with
        constants := ⟨name, .string, .string text, .start⟩ :: s.constants }.unlocated := by
  obtain ⟨stream, ds, hstream, hds, hs⟩ := Schema.ofText_eq_ok_iff.mp hs
  have hsplit : significant (split (stringDeclaration name (quote text) ++ rest).toList) =
      (stringDeclarationTokens name (quote text) ++ stream.tokens).map ofToken := by
    rw [String.toList_append, significant_split_stringDeclaration hword,
      TokenStream.significant_of_ofText hstream, List.map_append]
  obtain ⟨stream', hstream', htokens⟩ := TokenStream.exists_ofText_of_significant hsplit
  have hread : Written.ofTokens mode
      ⟨stringDeclarationTokens name (quote text) ++ stream.tokens, stream.finish⟩ =
        .ok (.constant ⟨name, "string", .string text, .start⟩ :: ds) := by
    rw [Written.ofTokens_eq_ok_iff] at hds ⊢
    rw [Parser.declarations_stringDeclaration h, hds]
  have hresolves : Schema.ofDeclarations mode
      (.constant ⟨name, "string", .string text, .start⟩ :: ds) =
        .ok { s with constants := ⟨name, .string, .string text, .start⟩ :: s.constants } := by
    rw [Schema.ofDeclarations_eq_ok_iff] at hs ⊢
    exact hs.constant ⟨rfl, rfl, rfl, rfl⟩ hfree hnew
  -- the tokens of the whole text are these up to their locations
  have hsame : SameUpToLocations (Written.ofTokens mode stream' >>= Schema.ofDeclarations mode)
      (Written.ofTokens mode
        ⟨stringDeclarationTokens name (quote text) ++ stream.tokens, stream.finish⟩ >>=
          Schema.ofDeclarations mode) := Schema.sameUpToLocations_of_tokens htokens mode
  rw [hread] at hsame
  change SameUpToLocations _ (Schema.ofDeclarations mode _) at hsame
  rw [hresolves, ← Schema.ofText_of_stream hstream'] at hsame
  cases hresult : Schema.ofText mode (stringDeclaration name (quote text) ++ rest) with
  | error r =>
    rw [hresult] at hsame
    exact hsame.elim
  | ok s' =>
    rw [hresult] at hsame
    exact ⟨s', rfl, hsame.1⟩

theorem Resolve.type_eq_of_constantValue? {type : Primitive} {literal : Literal} {text : String}
    (h : constantValue? type literal = some (.string text)) : type = .string := by
  unfold constantValue? at h
  split at h
  · cases h
  · rfl
  · cases h
  · cases h
  · split_ifs at h
    cases h
  · split_ifs at h
    cases h
  · split at h
    · split_ifs at h
      cases h
    · cases h
  · cases h

/-- A string constant of an accepted schema can be declared. -/
theorem Schema.stringConstant_of_ofText {mode : ErrorMode} {source : String} {s : Schema}
    (h : Schema.ofText mode source = .ok s) {c : Constant} (hc : c ∈ s.constants) {text : String}
    (htext : c.value = .string text) :
    isWord c.name = true ∧ Primitive.ofName? c.name = none ∧ c.type = .string := by
  obtain ⟨ds, -, hs⟩ := Schema.exists_resolves_of_ofText h
  obtain ⟨w, hw, himage⟩ := Resolve.exists_of_mem_forall₂ hs.constants hc
  refine ⟨(Schema.ofText_worded h).constants c hc, ?_, ?_⟩
  · rw [himage.name]
    exact hs.free _ (Written.mem_constantsIn.mp hw) _ rfl
  · have hvalue := himage.value
    rw [htext] at hvalue
    exact Resolve.type_eq_of_constantValue? hvalue

/-- **Quoted text reads back**, as JSON and as a literal of the schema language.

JSON gives the text back, so that different texts are quoted differently; no control character and
no bare quote stands inside the quotes. The schema language sees one string token, whose value is
the text if its control characters are tabs, newlines and carriage returns, and which is an invalid
escape otherwise. So what the targets write for a string constant with such a value is that constant
again when it is put into a schema text. -/
theorem quote_reads_back (text : String) :
    Json.decode? (quote text) = some text ∧
    (∀ other, quote other = quote text → other = text) ∧
    (∀ c ∈ (quote text).toList, 0x20 ≤ c.toNat) ∧
    (∃ body, (quote text).toList = '"' :: (body ++ ['"']) ∧ StringBody body) ∧
    TokenStream.ofText (quote text) =
      .ok ⟨[⟨.string, quote text, .start⟩], Location.start.advance (quote text).toList⟩ ∧
    (∀ location ts,
      (Readable text →
        Parser.literal.run (⟨.string, quote text, location⟩ :: ts) = .ok (.string text, ts)) ∧
      (¬ Readable text → ∃ spelling,
        Parser.literal.run (⟨.string, quote text, location⟩ :: ts) =
          .error ⟨.invalidEscape spelling, ⟨.string, quote text, location⟩ :: ts⟩)) ∧
    (Readable text → ∀ mode source s, Schema.ofText mode source = .ok s →
      ∀ c ∈ s.constants, c.value = .string text →
        ∀ literal ∈ [Go.literal c.value, JavaScript.literal c],
          ∀ mode' rest s', Schema.ofText mode' rest = .ok s' → Resolve.Unclaimed c.name s' →
            ∃ s'', Schema.ofText mode' (stringDeclaration c.name literal ++ rest) = .ok s'' ∧
              s''.unlocated = { s' with constants := c :: s'.constants }.unlocated) := by
  refine ⟨decode?_quote text, fun _ => quote_injective, fun _ => le_of_mem_quote,
    ⟨_, toList_quote text, stringBody_flatMap_escape _⟩, TokenStream.ofText_quote text,
    fun location ts => ⟨fun h => ?_, fun h => ?_⟩, ?_⟩
  · simp only [Parser.literal, Parser.token, StateT.run, Parser.literalOf_quote h]
  · obtain ⟨spelling, herror⟩ := Parser.literalOf_quote_error h location
    refine ⟨spelling, ?_⟩
    simp only [Parser.literal, Parser.token, StateT.run, herror]
  · intro h mode source s hs c hc htext literal hliteral mode' rest s' hs' hnew
    obtain ⟨hword, hfree, htype⟩ := Schema.stringConstant_of_ofText hs hc htext
    have hquote : literal = quote text := by
      rcases List.mem_pair.mp hliteral with rfl | rfl
      · rw [htext]
        rfl
      · rw [JavaScript.literal, htext]
    obtain ⟨s'', hs'', hsame⟩ := Schema.exists_ofText_stringDeclaration h hword hfree hs' hnew
    rw [hquote]
    refine ⟨s'', hs'', hsame.trans ?_⟩
    obtain ⟨name, type, value, location⟩ := c
    obtain rfl : type = .string := htype
    obtain rfl : value = .string text := htext
    rfl

/-- A backslash, a quote and a newline come back; a bell does not. -/
theorem slashes_read_back :
    ∃ s c s', Schema.ofText .collect "const c: string = \"\\\\\\\"\\n\";" = .ok s ∧
      c ∈ s.constants ∧ c.value = .string "\\\"\n" ∧
      Schema.ofText .failFast "enum E \x7b a = 0; \x7d" = .ok s' ∧
      (∃ s'', Schema.ofText .failFast
          (stringDeclaration c.name (JavaScript.literal c) ++ "enum E \x7b a = 0; \x7d") = .ok s'' ∧
        s''.unlocated = { s' with constants := c :: s'.constants }.unlocated) ∧
      ¬ Readable "\x07" ∧
      ∃ spelling, Parser.literal.run [⟨.string, quote "\x07", .start⟩] =
        .error ⟨.invalidEscape spelling, [⟨.string, quote "\x07", .start⟩]⟩ := by
  have hsource : ∃ s ∈ (Schema.ofText .collect "const c: string = \"\\\\\\\"\\n\";").toOption,
      ∃ c ∈ s.constants, c.name = "c" ∧ c.value = .string "\\\"\n" := by decide +kernel
  have hrest : ∃ s ∈ (Schema.ofText .failFast "enum E \x7b a = 0; \x7d").toOption,
      (∀ c ∈ s.constants, c.name ≠ "c") ∧ (∀ e ∈ s.enums, e.name ≠ "c") ∧
        ∀ m ∈ s.messages, m.name ≠ "c" := by decide +kernel
  have hreadable : Readable "\\\"\n" := by decide
  have hbell : ¬ Readable "\x07" := by decide
  obtain ⟨s, hs, c, hc, hname, hvalue⟩ := hsource
  obtain ⟨s', hs', hconstants, henums, hmessages⟩ := hrest
  have hsource := eq_ok_of_mem_toOption hs
  have hrest := eq_ok_of_mem_toOption hs'
  have hnew : Resolve.Unclaimed c.name s' := by
    rw [hname]
    exact ⟨hconstants, henums, hmessages⟩
  refine ⟨s, c, s', hsource, hc, hvalue, hrest, ?_, hbell, ?_⟩
  · exact (quote_reads_back "\\\"\n").2.2.2.2.2.2 hreadable .collect _ s hsource c hc hvalue _
      (by simp) .failFast _ s' hrest hnew
  · exact ((quote_reads_back "\x07").2.2.2.2.2.1 .start []).2 hbell

end WireSchema
