import WireSchema.Json
import WireSchema.Proofs.CanonicalText
import WireSchema.Proofs.DecimalText
import WireSchema.Proofs.PathSteps
import WireSchema.Proofs.QuotedText
import WireSchema.Proofs.SelfDelimiting

/-!
# JSON texts can be read in one way only

The compact text of a document without infinite numbers belongs to no other such document
(`Json.compact_injective`). Its first character tells what a document is (`Json.Kind`): strings end
at the first bare quote, numbers at the first character that no number has, and the entries of
arrays and objects where no comma follows. Integers and doubles are told apart by the point or the
exponent that every double has.

The indented text is the compact one with blanks between its parts. Without those (`Json.squeeze`)
it is the compact text again (`Json.squeeze_prettyAt`), so it tells as much.
-/

namespace WireSchema

open SelfDelimiting

/-! ## Strings -/

namespace Text

/-- Escaped characters can be told apart whatever follows. -/
theorem readable_escape : SelfDelimiting.Readable (fun _ => True) (fun _ => True) escape where
  inj {c d t t'} _ _ _ _ h := by
    have hread := character?_escape c t
    rw [h, character?_escape] at hread
    obtain ⟨rfl, rfl⟩ := Prod.mk.inj (Option.some.inj hread)
    exact ⟨rfl, rfl⟩
  rest _ _ := trivial

/-- No escaped character starts with a quote. -/
theorem ends_quote (r : List Char) : Ends (fun _ => True) (fun _ => True) escape ('"' :: r) where
  rest := trivial
  ne {c t} _ h := by
    have hread := character?_escape c t
    rw [← h] at hread
    cases hread

/-- A quoted text ends at its closing quote. -/
theorem quoteChars_append_inj {cs ds r r' : List Char}
    (h : quoteChars cs ++ r = quoteChars ds ++ r') :
    cs = ds ∧ r = r' := by
  simp only [quoteChars, List.cons_append, List.append_assoc, List.nil_append, List.cons.injEq,
    true_and] at h
  obtain ⟨rfl, hrest⟩ :=
    readable_escape.flatMap_append_inj (fun _ _ => trivial) (fun _ _ => trivial)
    (ends_quote r) (ends_quote r') h
  exact ⟨rfl, (List.cons.inj hrest).2⟩

end Text

namespace Json

open Decimal Text

/-! ## Entries -/

/-- No number goes on here. -/
def Stops (text : List Char) : Prop :=
  ∃ c rest, text = c :: rest ∧ ¬ IsNumeral c

theorem stops_cons {c : Char} (h : ¬ IsNumeral c) (rest : List Char) : Stops (c :: rest) :=
  ⟨c, rest, rfl, h⟩

/-- A number ends at the first character that no number has. -/
theorem numeral_append_inj {xs ys r r' : List Char} (hxs : ∀ c ∈ xs, IsNumeral c)
    (hys : ∀ c ∈ ys, IsNumeral c) (hr : Stops r) (hr' : Stops r') (h : xs ++ r = ys ++ r') :
    xs = ys ∧ r = r' := by
  obtain ⟨c, rest, rfl, hc⟩ := hr
  obtain ⟨c', rest', rfl, hc'⟩ := hr'
  obtain ⟨rfl, rfl, rfl⟩ := append_cons_inj_of_sort IsNumeral hxs hys hc hc' h
  exact ⟨rfl, rfl⟩

section Listed

variable {α : Type} {P : α → Prop} {code : α → List Char}

/-- Entries with commas between them. -/
def listed (code : α → List Char) (entries : List α) : List Char :=
  [','].intercalate (entries.map code)

/-- A list is its first entry and the others, each behind a comma. -/
theorem listed_cons (code : α → List Char) (entry : α) (entries : List α) :
    listed code (entry :: entries) = code entry ++ entries.flatMap (',' :: code ·) := by
  rw [listed, List.map_cons, intercalate_cons, List.flatMap_map]

/-- **A list of entries ends at its closing bracket.** -/
theorem listed_append_inj (h : SelfDelimiting.Readable P Stops (',' :: code ·)) {stop : Char}
    (hstop : ¬ IsNumeral stop) (hcomma : stop ≠ ',')
    (hcode : ∀ {a t t'}, P a → code a ++ t ≠ stop :: t') {as bs : List α} {r r' : List Char}
    (has : ∀ a ∈ as, P a) (hbs : ∀ b ∈ bs, P b)
    (heq : listed code as ++ stop :: r = listed code bs ++ stop :: r') : as = bs ∧ r = r' := by
  have hends : ∀ t, Ends P Stops (',' :: code ·) (stop :: t) := fun t =>
    ⟨stops_cons hstop t, fun _ h => hcomma (List.cons.inj h).1⟩
  cases as with
  | nil =>
    cases bs with
    | nil => exact ⟨rfl, (List.cons.inj heq).2⟩
    | cons b bs =>
      rw [listed_cons, List.append_assoc] at heq
      exact absurd heq.symm (hcode (hbs b List.mem_cons_self))
  | cons a as =>
    cases bs with
    | nil =>
      rw [listed_cons, List.append_assoc] at heq
      exact absurd heq (hcode (has a List.mem_cons_self))
    | cons b bs =>
      -- with a comma in front, every entry has one
      rw [listed_cons, listed_cons] at heq
      obtain ⟨hentries, hrest⟩ := h.flatMap_append_inj has hbs (hends r) (hends r')
        (congrArg (',' :: ·) heq)
      exact ⟨hentries, (List.cons.inj hrest).2⟩

end Listed

/-! ## Documents -/

/-- A document that nests at most so deep, and whose numbers are all finite. -/
inductive Within : Nat → Json → Prop
  | null {n : Nat} : Within n .null
  | bool {n : Nat} (value : Bool) : Within n (.bool value)
  | integer {n : Nat} (value : Int) : Within n (.integer value)
  | number {n : Nat} {value : Binary64} : value.isFinite = true → Within n (.number value)
  | string {n : Nat} (value : String) : Within n (.string value)
  | array {n : Nat} {items : List Json} : (∀ item ∈ items, Within n item) →
      Within (n + 1) (.array items)
  | object {n : Nat} {fields : List (String × Json)} : (∀ field ∈ fields, Within n field.2) →
      Within (n + 1) (.object fields)

/-- The text of a field. -/
def fieldText (field : String × Json) : List Char :=
  quoteChars field.1.toList ++ ':' :: field.2.compact.toList

theorem compactItems_eq (items : List Json) : compactItems items = items.map compact := by
  induction items with
  | nil => rfl
  | cons item items ih => rw [compactItems, ih, List.map_cons]

theorem compactFields_eq (fields : List (String × Json)) :
    compactFields fields = fields.map fun field => quote field.1 ++ ":" ++ field.2.compact := by
  induction fields with
  | nil => rfl
  | cons field fields ih =>
    obtain ⟨key, value⟩ := field
    rw [compactFields, ih, List.map_cons]

/-- The text of an array. -/
theorem toList_compact_array (items : List Json) :
    (Json.array items).compact.toList = '[' :: (listed (·.compact.toList) items ++ [']']) := by
  simp [compact, compactItems_eq, String.toList_intercalate, listed, Function.comp_def]

/-- The text of an object. -/
theorem toList_compact_object (fields : List (String × Json)) :
    (Json.object fields).compact.toList = '\x7b' :: (listed fieldText fields ++ ['\x7d']) := by
  simp [compact, compactFields_eq, String.toList_intercalate, listed, Function.comp_def]
  rfl

theorem toList_compact_string (value : String) :
    (Json.string value).compact.toList = quoteChars value.toList :=
  toList_quote value

/-- A finite number is written as a decimal. -/
theorem compact_number {value : Binary64} (h : value.isFinite = true) :
    (Json.number value).compact = Layout.json.write value :=
  if_pos h

/-- An integer is written with digits and a sign. -/
theorem isNumeral_compact_integer (value : Int) :
    ∀ c ∈ (Json.integer value).compact.toList, IsNumeral c :=
  fun c hc => (numeric_intText value c hc).imp_right (by rintro rfl; decide)

/-- What the first character of a document tells about it. -/
inductive Kind where
  | null
  | bool
  | numeral
  | string
  | array
  | object

def Kind.ofChar? (c : Char) : Option Kind :=
  if IsNumeral c then some .numeral
  else if c = '"' then some .string
  else if c = '[' then some .array
  else if c = '\x7b' then some .object
  else if c = 'n' then some .null
  else if c = 't' ∨ c = 'f' then some .bool
  else none

def kind : Json → Kind
  | .null => .null
  | .bool _ => .bool
  | .integer _ => .numeral
  | .number _ => .numeral
  | .string _ => .string
  | .array _ => .array
  | .object _ => .object

theorem ofChar?_of_isNumeral {text : List Char} (h : ∀ c ∈ text, IsNumeral c) (hne : text ≠ []) :
    ∃ c rest, text = c :: rest ∧ Kind.ofChar? c = some .numeral := by
  obtain ⟨c, rest, rfl⟩ := List.exists_cons_of_ne_nil hne
  exact ⟨c, rest, rfl, if_pos (h c List.mem_cons_self)⟩

/-- **The first character of a text tells what kind of value it is.** -/
theorem Within.exists_head {n : Nat} {j : Json} (h : Within n j) :
    ∃ c rest, j.compact.toList = c :: rest ∧ Kind.ofChar? c = some j.kind := by
  cases h with
  | null => exact ⟨'n', _, rfl, rfl⟩
  | bool value =>
    cases value with
    | false => exact ⟨'f', _, rfl, rfl⟩
    | true => exact ⟨'t', _, rfl, rfl⟩
  | integer value =>
    refine ofChar?_of_isNumeral (isNumeral_compact_integer value) ?_
    cases value with
    | ofNat n => exact toList_toString_ne_nil n
    | negSucc n =>
      change ("-" ++ toString (n + 1)).toList ≠ []
      rw [String.toList_append]
      exact List.cons_ne_nil _ _
  | @number _ value h =>
    rw [compact_number h]
    refine ofChar?_of_isNumeral (isNumeral_json_write value) ?_
    exact (exists_mark_json_write value).elim List.ne_nil_of_mem List.ne_nil_of_mem
  | string value => exact ⟨'"', _, toList_compact_string value, rfl⟩
  | array => exact ⟨'[', _, toList_compact_array _, rfl⟩
  | object => exact ⟨'\x7b', _, toList_compact_object _, rfl⟩

/-- Texts that start alike are of the same kind. -/
theorem Within.kind_eq {n : Nat} {a b : Json} (ha : Within n a) (hb : Within n b) {r r' : List Char}
    (h : a.compact.toList ++ r = b.compact.toList ++ r') : a.kind = b.kind := by
  obtain ⟨c, rest, heq, hkind⟩ := ha.exists_head
  obtain ⟨c', rest', heq', hkind'⟩ := hb.exists_head
  rw [heq, heq'] at h
  apply Option.some.inj
  rw [← hkind, ← hkind', (List.cons.inj h).1]

/-- Integers and doubles are told apart. -/
theorem compact_integer_ne_number (i : Int) {x : Binary64} (hx : x.isFinite = true) :
    (Json.integer i).compact.toList ≠ (Json.number x).compact.toList := by
  intro h
  rw [compact_number hx] at h
  have hmark := exists_mark_json_write x
  rw [← h] at hmark
  rcases hmark with hmark | hmark
  · exact absurd (numeric_intText i _ hmark) (by decide)
  · exact absurd (numeric_intText i _ hmark) (by decide)

/-- The text of a number has nothing but characters of numerals. -/
theorem Within.isNumeral_compact {n : Nat} {j : Json} (h : Within n j) (hkind : j.kind = .numeral) :
    ∀ c ∈ j.compact.toList, IsNumeral c := by
  cases h with
  | integer value => exact isNumeral_compact_integer value
  | number hx =>
    rw [compact_number hx]
    exact isNumeral_json_write _
  | _ => cases hkind

/-- Numbers that are written alike are the same. -/
theorem Within.numeral_inj {n : Nat} {a b : Json} (ha : Within n a) (hb : Within n b)
    (hkind : a.kind = .numeral) (hkind' : b.kind = .numeral)
    (h : a.compact.toList = b.compact.toList) : a = b := by
  cases ha with
  | integer i =>
    cases hb with
    | integer j => exact congrArg Json.integer (Int.repr_inj.mp (String.toList_inj.mp h))
    | number hy => exact absurd h (compact_integer_ne_number i hy)
    | _ => cases hkind'
  | number hx =>
    cases hb with
    | integer j => exact absurd h.symm (compact_integer_ne_number j hx)
    | number hy =>
      rw [compact_number hx, compact_number hy] at h
      exact congrArg Json.number (json_write_injective (String.toList_inj.mp h))
    | _ => cases hkind'
  | _ => cases hkind

/-- Truth values can be told apart whatever follows. -/
theorem bool_append_inj {value value' : Bool} {r r' : List Char}
    (h : (Json.bool value).compact.toList ++ r = (Json.bool value').compact.toList ++ r') :
    value = value' ∧ r = r' := by
  cases value with
  | false =>
    cases value' with
    | false => exact ⟨rfl, List.append_cancel_left h⟩
    | true => cases h
  | true =>
    cases value' with
    | false => cases h
    | true => exact ⟨rfl, List.append_cancel_left h⟩

/-- Documents that nest at most so deep can be read off a list with a comma before each. -/
abbrev Legible (n : Nat) : Prop :=
  SelfDelimiting.Readable (Within n) Stops (fun j : Json => ',' :: j.compact.toList)

/-- Arrays can be told apart if their items can. -/
theorem Legible.array_inj {n : Nat} (h : Legible n) {items items' : List Json}
    (hitems : ∀ item ∈ items, Within n item) (hitems' : ∀ item ∈ items', Within n item)
    {r r' : List Char}
    (heq : (Json.array items).compact.toList ++ r = (Json.array items').compact.toList ++ r') :
    items = items' ∧ r = r' := by
  simp only [toList_compact_array, List.cons_append, List.append_assoc, List.nil_append,
    List.cons.injEq, true_and] at heq
  refine listed_append_inj h (by decide) (by decide) (fun {item t t'} hitem heq => ?_)
    hitems hitems' heq
  -- no document starts with the bracket
  obtain ⟨c, rest, htext, hkind⟩ := hitem.exists_head
  rw [htext] at heq
  obtain ⟨rfl, -⟩ := List.cons.inj heq
  cases hkind

/-- The fields of an object can be told apart if their values can. -/
theorem Legible.fields {n : Nat} (h : Legible n) :
    SelfDelimiting.Readable (fun field : String × Json => Within n field.2) Stops
      (fun field => ',' :: fieldText field) where
  inj {field field' r r'} hfield hfield' hr hr' heq := by
    obtain ⟨key, value⟩ := field
    obtain ⟨key', value'⟩ := field'
    simp only [fieldText, List.cons_append, List.append_assoc, List.cons.injEq, true_and] at heq
    obtain ⟨hkey, hvalue⟩ := quoteChars_append_inj heq
    obtain ⟨rfl, hrest⟩ :=
      h.inj hfield hfield' hr hr' (congrArg (',' :: ·) (List.cons.inj hvalue).2)
    exact ⟨Prod.ext (String.toList_inj.mp hkey) rfl, hrest⟩
  rest _ _ := stops_cons (by decide) _

/-- Objects can be told apart if the values of their fields can. -/
theorem Legible.object_inj {n : Nat} (h : Legible n) {fields fields' : List (String × Json)}
    (hfields : ∀ field ∈ fields, Within n field.2) (hfields' : ∀ field ∈ fields', Within n field.2)
    {r r' : List Char}
    (heq : (Json.object fields).compact.toList ++ r = (Json.object fields').compact.toList ++ r') :
    fields = fields' ∧ r = r' := by
  simp only [toList_compact_object, List.cons_append, List.append_assoc, List.nil_append,
    List.cons.injEq, true_and] at heq
  exact listed_append_inj h.fields (by decide) (by decide) (fun _ heq => by cases heq)
    hfields hfields' heq

/-- **Documents are read in one way only**, as long as what follows them is no part of a number. -/
theorem legible (n : Nat) : Legible n := by
  -- the entries of arrays and objects nest less deep
  induction n using Nat.strongRecOn with
  | ind n ih =>
    refine ⟨fun {a b r r'} ha hb hr hr' h => ?_, fun _ _ => stops_cons (by decide) _⟩
    replace h : a.compact.toList ++ r = b.compact.toList ++ r' := (List.cons.inj h).2
    have hkind := ha.kind_eq hb h
    by_cases hnumeral : a.kind = .numeral
    · have hnumeral' := hkind.symm.trans hnumeral
      obtain ⟨htext, hrest⟩ := numeral_append_inj (ha.isNumeral_compact hnumeral)
        (hb.isNumeral_compact hnumeral') hr hr' h
      exact ⟨ha.numeral_inj hb hnumeral hnumeral' htext, hrest⟩
    cases ha with
    | integer => exact absurd rfl hnumeral
    | number => exact absurd rfl hnumeral
    | null =>
      cases hb with
      | null => exact ⟨rfl, List.append_cancel_left h⟩
      | _ => cases hkind
    | bool value =>
      cases hb with
      | bool value' =>
        obtain ⟨rfl, hrest⟩ := bool_append_inj h
        exact ⟨rfl, hrest⟩
      | _ => cases hkind
    | string value =>
      cases hb with
      | string value' =>
        rw [toList_compact_string, toList_compact_string] at h
        obtain ⟨hvalue, hrest⟩ := quoteChars_append_inj h
        exact ⟨congrArg Json.string (String.toList_inj.mp hvalue), hrest⟩
      | _ => cases hkind
    | array hitems =>
      cases hb with
      | array hitems' =>
        obtain ⟨rfl, hrest⟩ := (ih _ (Nat.lt_succ_self _)).array_inj hitems hitems' h
        exact ⟨rfl, hrest⟩
      | _ => cases hkind
    | object hfields =>
      cases hb with
      | object hfields' =>
        obtain ⟨rfl, hrest⟩ := (ih _ (Nat.lt_succ_self _)).object_inj hfields hfields' h
        exact ⟨rfl, hrest⟩
      | _ => cases hkind

/-- **Different documents have different compact texts.** -/
theorem compact_injective {n : Nat} {a b : Json} (ha : Within n a) (hb : Within n b)
    (h : a.compact = b.compact) : a = b := by
  have hstops : Stops [','] := stops_cons (by decide) []
  refine ((legible n).inj ha hb hstops hstops ?_).1
  rw [h]

/-! ## Blanks -/

/-- Where in a text a character stands: outside strings, in one, or behind a backslash there. -/
inductive Place where
  | outside
  | inside
  | escaped

/-- A text without the blanks outside its strings. -/
def squeeze : Place → List Char → List Char
  | _, [] => []
  | .outside, c :: cs =>
    if c = '"' then c :: squeeze .inside cs
    else if c = ' ' ∨ c = '\n' then squeeze .outside cs
    else c :: squeeze .outside cs
  | .inside, c :: cs =>
    if c = '"' then c :: squeeze .outside cs
    else if c = '\\' then c :: squeeze .escaped cs
    else c :: squeeze .inside cs
  | .escaped, c :: cs => c :: squeeze .inside cs

/-- The first text is the second one with blanks outside its strings. -/
def Spaced (spaced plain : String) : Prop :=
  ∀ r, squeeze .outside (spaced.toList ++ r) = plain.toList ++ squeeze .outside r

/-- Texts can be spaced one by one. -/
theorem Spaced.append {xs xs' ys ys' : String} (h : Spaced xs ys) (h' : Spaced xs' ys') :
    Spaced (xs ++ xs') (ys ++ ys') := by
  intro r
  rw [String.toList_append, String.toList_append, List.append_assoc, List.append_assoc, h, h']

/-- A text without quotes and blanks stays as it is. -/
theorem spaced_self {text : String} (h : ∀ c ∈ text.toList, c ≠ '"' ∧ c ≠ ' ' ∧ c ≠ '\n') :
    Spaced text text := by
  intro r
  generalize text.toList = cs at h ⊢
  induction cs with
  | nil => rfl
  | cons c cs ih =>
    obtain ⟨⟨hquote, hspace, hnewline⟩, hcs⟩ := List.forall_mem_cons.mp h
    rw [List.cons_append, squeeze, if_neg hquote, if_neg (not_or.mpr ⟨hspace, hnewline⟩), ih hcs]
    rfl

/-- A line break with its indentation is space. -/
theorem spaced_newline (depth : Nat) : Spaced (newline depth) "" := by
  have hblanks : ∀ n r, squeeze .outside (List.replicate n ' ' ++ r) = squeeze .outside r := by
    intro n r
    induction n with
    | zero => rfl
    | succ n ih => exact ih
  intro r
  have htext : (newline depth).toList = '\n' :: List.replicate (2 * depth) ' ' := by simp [newline]
  rw [htext]
  exact hblanks _ r

/-- Blanks in a string are kept. -/
theorem squeeze_stringBody {body : List Char} (h : Segment.StringBody body) (r : List Char) :
    squeeze .inside (body ++ '"' :: r) = body ++ '"' :: squeeze .outside r := by
  induction h with
  | nil => rfl
  | plain hquote hbackslash _ _ ih =>
    rw [List.cons_append, squeeze, if_neg hquote, if_neg hbackslash, ih]
    rfl
  | escape _ _ ih =>
    rw [List.cons_append, List.cons_append, squeeze, if_neg (by decide), if_pos rfl, squeeze, ih]
    rfl

/-- Blanks in quotes are no space. -/
theorem spaced_quote (text : String) : Spaced (quote text) (quote text) := by
  intro r
  have hbody := squeeze_stringBody (stringBody_flatMap_escape text.toList) r
  simp only [toList_quote, quoteChars, List.cons_append, List.append_assoc, List.nil_append]
  rw [squeeze, if_pos rfl, hbody]

/-- A scalar is written without space. -/
theorem spaced_scalar (j : Json) : Spaced j.scalar j.scalar := by
  have hnumeral : ∀ c, IsNumeral c → c ≠ '"' ∧ c ≠ ' ' ∧ c ≠ '\n' := by
    intro c hc
    refine ⟨?_, ?_, ?_⟩ <;> rintro rfl <;> revert hc <;> decide
  have hnull : Spaced "null" "null" := fun _ => rfl
  cases j with
  | bool value => cases value <;> exact fun _ => rfl
  | integer value => exact spaced_self fun c hc => hnumeral c (isNumeral_compact_integer value c hc)
  | number value =>
    rw [scalar]
    split_ifs
    · exact spaced_self fun c hc => hnumeral c (isNumeral_json_write value c hc)
    · exact hnull
  | string value => exact spaced_quote value
  | _ => exact hnull

/-- Entries can be spaced one by one. -/
theorem spaced_intercalate {separator : String} (hseparator : Spaced separator ",")
    {spaced plain : List String} (h : List.Forall₂ Spaced spaced plain) :
    Spaced (separator.intercalate spaced) (",".intercalate plain) := by
  induction h with
  | nil => exact fun _ => rfl
  | cons hentry hentries ih =>
    cases hentries with
    | nil => simpa using hentry
    | cons =>
      rw [String.intercalate_cons_cons, String.intercalate_cons_cons]
      exact (hentry.append hseparator).append ih

/-- Brackets stand around the same entries. -/
theorem spaced_bracket {opening closing : String} (hopening : Spaced opening opening)
    (hclosing : Spaced closing closing) (depth : Nat) {spaced plain : List String}
    (h : List.Forall₂ Spaced spaced plain) :
    Spaced (bracket opening closing depth spaced)
      (opening ++ ",".intercalate plain ++ closing) := by
  have hcomma : Spaced "," "," := fun _ => rfl
  have hseparator : Spaced ("," ++ newline (depth + 1)) "," := hcomma.append (spaced_newline _)
  have hentries := spaced_intercalate hseparator h
  rw [bracket]
  split_ifs with hempty
  · obtain rfl := List.isEmpty_iff.mp hempty
    obtain rfl := List.forall₂_nil_left_iff.mp h
    simpa using hopening.append hclosing
  · simpa using (((hopening.append (spaced_newline _)).append hentries).append
      (spaced_newline _)).append
      hclosing

mutual

/-- **A pretty text is the compact one with spaces**, by induction on the value. -/
theorem spaced_prettyAt (depth : Nat) : (j : Json) → Spaced (j.prettyAt depth) j.compact
  | .array items =>
    spaced_bracket (fun _ => rfl) (fun _ => rfl) depth (spaced_prettyItems (depth + 1) items)
  | .object fields =>
    spaced_bracket (fun _ => rfl) (fun _ => rfl) depth (spaced_prettyFields (depth + 1) fields)
  | .null => spaced_scalar .null
  | .bool value => spaced_scalar (.bool value)
  | .integer value => spaced_scalar (.integer value)
  | .number value => spaced_scalar (.number value)
  | .string value => spaced_scalar (.string value)

theorem spaced_prettyItems (depth : Nat) : (items : List Json) →
    List.Forall₂ Spaced (prettyItems depth items) (compactItems items)
  | [] => .nil
  | item :: items => .cons (spaced_prettyAt depth item) (spaced_prettyItems depth items)

theorem spaced_prettyFields (depth : Nat) : (fields : List (String × Json)) →
    List.Forall₂ Spaced (prettyFields depth fields) (compactFields fields)
  | [] => .nil
  | (key, value) :: fields =>
    .cons (((spaced_quote key).append fun _ => rfl).append (spaced_prettyAt depth value))
      (spaced_prettyFields depth fields)

end

/-- **The indented text is the compact one with blanks.** -/
theorem squeeze_prettyAt (depth : Nat) (j : Json) :
    squeeze .outside (j.prettyAt depth).toList = j.compact.toList := by
  have h := spaced_prettyAt depth j []
  rwa [List.append_nil, squeeze, List.append_nil] at h

/-- **Different documents have different indented texts.** -/
theorem prettyAt_injective {n depth : Nat} {a b : Json} (ha : Within n a) (hb : Within n b)
    (h : a.prettyAt depth = b.prettyAt depth) : a = b := by
  apply compact_injective ha hb
  rw [← String.toList_inj, ← squeeze_prettyAt depth, ← squeeze_prettyAt depth, h]

end Json

end WireSchema
